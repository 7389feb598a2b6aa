import Mathlib
import Btp.Vm.OpCodes
import Btp.Vm.GasTable

/-!
# The jump tables

`core/vm/jump_table.go`: for every opcode, the function that executes it, its
constant and dynamic gas, the stack bounds `Run` checks, the memory it needs,
and the flags that steer the loop. An entry the source leaves out is the zero
value of `operation`, which is not valid. Each fork's table is the previous
one with some entries set.
-/

namespace Btp.Vm

/-- `operation`, with the zero value as its defaults. A missing `execute` is
a `nil` function. -/
structure operation where
  execute : Option Execute := none
  constantGas : Nat := 0
  dynamicGas : Option GasFunc := none
  minStack : Nat := 0
  maxStack : Nat := 0
  memorySize : Option MemorySizeFunc := none
  halts : Bool := false
  jumps : Bool := false
  writes : Bool := false
  valid : Bool := false
  reverts : Bool := false
  returns : Bool := false
  deriving DecidableEq, Repr

/-- `[256]operation`. -/
abbrev JumpTable := OpCode → operation

/-- The entries of `newFrontierInstructionSet`, in the order of the source. -/
def frontierEntries : List (OpCode × operation) := [
  (STOP,
    { execute := some .opStop, constantGas := 0, minStack := minStack 0 0,
      maxStack := maxStack 0 0, halts := true, valid := true }),
  (ADD,
    { execute := some .opAdd, constantGas := GasFastestStep, minStack := minStack 2 1,
      maxStack := maxStack 2 1, valid := true }),
  (MUL,
    { execute := some .opMul, constantGas := GasFastStep, minStack := minStack 2 1,
      maxStack := maxStack 2 1, valid := true }),
  (SUB,
    { execute := some .opSub, constantGas := GasFastestStep, minStack := minStack 2 1,
      maxStack := maxStack 2 1, valid := true }),
  (DIV,
    { execute := some .opDiv, constantGas := GasFastStep, minStack := minStack 2 1,
      maxStack := maxStack 2 1, valid := true }),
  (SDIV,
    { execute := some .opSdiv, constantGas := GasFastStep, minStack := minStack 2 1,
      maxStack := maxStack 2 1, valid := true }),
  (MOD,
    { execute := some .opMod, constantGas := GasFastStep, minStack := minStack 2 1,
      maxStack := maxStack 2 1, valid := true }),
  (SMOD,
    { execute := some .opSmod, constantGas := GasFastStep, minStack := minStack 2 1,
      maxStack := maxStack 2 1, valid := true }),
  (ADDMOD,
    { execute := some .opAddmod, constantGas := GasMidStep, minStack := minStack 3 1,
      maxStack := maxStack 3 1, valid := true }),
  (MULMOD,
    { execute := some .opMulmod, constantGas := GasMidStep, minStack := minStack 3 1,
      maxStack := maxStack 3 1, valid := true }),
  (EXP,
    { execute := some .opExp, dynamicGas := some .gasExp, minStack := minStack 2 1,
      maxStack := maxStack 2 1, valid := true }),
  (SIGNEXTEND,
    { execute := some .opSignExtend, constantGas := GasFastStep, minStack := minStack 2 1,
      maxStack := maxStack 2 1, valid := true }),
  (LT,
    { execute := some .opLt, constantGas := GasFastestStep, minStack := minStack 2 1,
      maxStack := maxStack 2 1, valid := true }),
  (GT,
    { execute := some .opGt, constantGas := GasFastestStep, minStack := minStack 2 1,
      maxStack := maxStack 2 1, valid := true }),
  (SLT,
    { execute := some .opSlt, constantGas := GasFastestStep, minStack := minStack 2 1,
      maxStack := maxStack 2 1, valid := true }),
  (SGT,
    { execute := some .opSgt, constantGas := GasFastestStep, minStack := minStack 2 1,
      maxStack := maxStack 2 1, valid := true }),
  (EQ,
    { execute := some .opEq, constantGas := GasFastestStep, minStack := minStack 2 1,
      maxStack := maxStack 2 1, valid := true }),
  (ISZERO,
    { execute := some .opIszero, constantGas := GasFastestStep, minStack := minStack 1 1,
      maxStack := maxStack 1 1, valid := true }),
  (AND,
    { execute := some .opAnd, constantGas := GasFastestStep, minStack := minStack 2 1,
      maxStack := maxStack 2 1, valid := true }),
  (XOR,
    { execute := some .opXor, constantGas := GasFastestStep, minStack := minStack 2 1,
      maxStack := maxStack 2 1, valid := true }),
  (OR,
    { execute := some .opOr, constantGas := GasFastestStep, minStack := minStack 2 1,
      maxStack := maxStack 2 1, valid := true }),
  (NOT,
    { execute := some .opNot, constantGas := GasFastestStep, minStack := minStack 1 1,
      maxStack := maxStack 1 1, valid := true }),
  (BYTE,
    { execute := some .opByte, constantGas := GasFastestStep, minStack := minStack 2 1,
      maxStack := maxStack 2 1, valid := true }),
  (SHA3,
    { execute := some .opSha3, dynamicGas := some .gasSha3, minStack := minStack 2 1,
      maxStack := maxStack 2 1, memorySize := some .memorySha3, valid := true }),
  (ADDRESS,
    { execute := some .opAddress, constantGas := GasQuickStep, minStack := minStack 0 1,
      maxStack := maxStack 0 1, valid := true }),
  (BALANCE,
    { execute := some .opBalance, dynamicGas := some .gasBalance, minStack := minStack 1 1,
      maxStack := maxStack 1 1, valid := true }),
  (ORIGIN,
    { execute := some .opOrigin, constantGas := GasQuickStep, minStack := minStack 0 1,
      maxStack := maxStack 0 1, valid := true }),
  (CALLER,
    { execute := some .opCaller, constantGas := GasQuickStep, minStack := minStack 0 1,
      maxStack := maxStack 0 1, valid := true }),
  (CALLVALUE,
    { execute := some .opCallValue, constantGas := GasQuickStep, minStack := minStack 0 1,
      maxStack := maxStack 0 1, valid := true }),
  (CALLDATALOAD,
    { execute := some .opCallDataLoad, constantGas := GasFastestStep, minStack := minStack 1 1,
      maxStack := maxStack 1 1, valid := true }),
  (CALLDATASIZE,
    { execute := some .opCallDataSize, constantGas := GasQuickStep, minStack := minStack 0 1,
      maxStack := maxStack 0 1, valid := true }),
  (CALLDATACOPY,
    { execute := some .opCallDataCopy, dynamicGas := some .gasCallDataCopy,
      minStack := minStack 3 0, maxStack := maxStack 3 0,
      memorySize := some .memoryCallDataCopy, valid := true }),
  (CODESIZE,
    { execute := some .opCodeSize, constantGas := GasQuickStep, minStack := minStack 0 1,
      maxStack := maxStack 0 1, valid := true }),
  (CODECOPY,
    { execute := some .opCodeCopy, dynamicGas := some .gasCodeCopy, minStack := minStack 3 0,
      maxStack := maxStack 3 0, memorySize := some .memoryCodeCopy, valid := true }),
  (GASPRICE,
    { execute := some .opGasprice, constantGas := GasQuickStep, minStack := minStack 0 1,
      maxStack := maxStack 0 1, valid := true }),
  (EXTCODESIZE,
    { execute := some .opExtCodeSize, dynamicGas := some .gasExtCodeSize,
      minStack := minStack 1 1, maxStack := maxStack 1 1, valid := true }),
  (EXTCODECOPY,
    { execute := some .opExtCodeCopy, dynamicGas := some .gasExtCodeCopy,
      minStack := minStack 4 0, maxStack := maxStack 4 0,
      memorySize := some .memoryExtCodeCopy, valid := true }),
  (BLOCKHASH,
    { execute := some .opBlockhash, constantGas := GasExtStep, minStack := minStack 1 1,
      maxStack := maxStack 1 1, valid := true }),
  (COINBASE,
    { execute := some .opCoinbase, constantGas := GasQuickStep, minStack := minStack 0 1,
      maxStack := maxStack 0 1, valid := true }),
  (TIMESTAMP,
    { execute := some .opTimestamp, constantGas := GasQuickStep, minStack := minStack 0 1,
      maxStack := maxStack 0 1, valid := true }),
  (NUMBER,
    { execute := some .opNumber, constantGas := GasQuickStep, minStack := minStack 0 1,
      maxStack := maxStack 0 1, valid := true }),
  (DIFFICULTY,
    { execute := some .opDifficulty, constantGas := GasQuickStep, minStack := minStack 0 1,
      maxStack := maxStack 0 1, valid := true }),
  (GASLIMIT,
    { execute := some .opGasLimit, constantGas := GasQuickStep, minStack := minStack 0 1,
      maxStack := maxStack 0 1, valid := true }),
  (POP,
    { execute := some .opPop, constantGas := GasQuickStep, minStack := minStack 1 0,
      maxStack := maxStack 1 0, valid := true }),
  (MLOAD,
    { execute := some .opMload, dynamicGas := some .gasMLoad, minStack := minStack 1 1,
      maxStack := maxStack 1 1, memorySize := some .memoryMLoad, valid := true }),
  (MSTORE,
    { execute := some .opMstore, dynamicGas := some .gasMStore, minStack := minStack 2 0,
      maxStack := maxStack 2 0, memorySize := some .memoryMStore, valid := true }),
  (MSTORE8,
    { execute := some .opMstore8, dynamicGas := some .gasMStore8,
      memorySize := some .memoryMStore8, minStack := minStack 2 0, maxStack := maxStack 2 0,
      valid := true }),
  (SLOAD,
    { execute := some .opSload, dynamicGas := some .gasSLoad, minStack := minStack 1 1,
      maxStack := maxStack 1 1, valid := true }),
  (SSTORE,
    { execute := some .opSstore, dynamicGas := some .gasSStore, minStack := minStack 2 0,
      maxStack := maxStack 2 0, valid := true, writes := true }),
  (JUMP,
    { execute := some .opJump, constantGas := GasMidStep, minStack := minStack 1 0,
      maxStack := maxStack 1 0, jumps := true, valid := true }),
  (JUMPI,
    { execute := some .opJumpi, constantGas := GasSlowStep, minStack := minStack 2 0,
      maxStack := maxStack 2 0, jumps := true, valid := true }),
  (PC,
    { execute := some .opPc, constantGas := GasQuickStep, minStack := minStack 0 1,
      maxStack := maxStack 0 1, valid := true }),
  (MSIZE,
    { execute := some .opMsize, constantGas := GasQuickStep, minStack := minStack 0 1,
      maxStack := maxStack 0 1, valid := true }),
  (GAS,
    { execute := some .opGas, constantGas := GasQuickStep, minStack := minStack 0 1,
      maxStack := maxStack 0 1, valid := true }),
  (JUMPDEST,
    { execute := some .opJumpdest, constantGas := JumpdestGas, minStack := minStack 0 0,
      maxStack := maxStack 0 0, valid := true }),
  (PUSH1,
    { execute := some .opPush1, constantGas := GasFastestStep, minStack := minStack 0 1,
      maxStack := maxStack 0 1, valid := true }),
  (PUSH2,
    { execute := some (.makePush 2 2), constantGas := GasFastestStep, minStack := minStack 0 1,
      maxStack := maxStack 0 1, valid := true }),
  (PUSH3,
    { execute := some (.makePush 3 3), constantGas := GasFastestStep, minStack := minStack 0 1,
      maxStack := maxStack 0 1, valid := true }),
  (PUSH4,
    { execute := some (.makePush 4 4), constantGas := GasFastestStep, minStack := minStack 0 1,
      maxStack := maxStack 0 1, valid := true }),
  (PUSH5,
    { execute := some (.makePush 5 5), constantGas := GasFastestStep, minStack := minStack 0 1,
      maxStack := maxStack 0 1, valid := true }),
  (PUSH6,
    { execute := some (.makePush 6 6), constantGas := GasFastestStep, minStack := minStack 0 1,
      maxStack := maxStack 0 1, valid := true }),
  (PUSH7,
    { execute := some (.makePush 7 7), constantGas := GasFastestStep, minStack := minStack 0 1,
      maxStack := maxStack 0 1, valid := true }),
  (PUSH8,
    { execute := some (.makePush 8 8), constantGas := GasFastestStep, minStack := minStack 0 1,
      maxStack := maxStack 0 1, valid := true }),
  (PUSH9,
    { execute := some (.makePush 9 9), constantGas := GasFastestStep, minStack := minStack 0 1,
      maxStack := maxStack 0 1, valid := true }),
  (PUSH10,
    { execute := some (.makePush 10 10), constantGas := GasFastestStep,
      minStack := minStack 0 1, maxStack := maxStack 0 1, valid := true }),
  (PUSH11,
    { execute := some (.makePush 11 11), constantGas := GasFastestStep,
      minStack := minStack 0 1, maxStack := maxStack 0 1, valid := true }),
  (PUSH12,
    { execute := some (.makePush 12 12), constantGas := GasFastestStep,
      minStack := minStack 0 1, maxStack := maxStack 0 1, valid := true }),
  (PUSH13,
    { execute := some (.makePush 13 13), constantGas := GasFastestStep,
      minStack := minStack 0 1, maxStack := maxStack 0 1, valid := true }),
  (PUSH14,
    { execute := some (.makePush 14 14), constantGas := GasFastestStep,
      minStack := minStack 0 1, maxStack := maxStack 0 1, valid := true }),
  (PUSH15,
    { execute := some (.makePush 15 15), constantGas := GasFastestStep,
      minStack := minStack 0 1, maxStack := maxStack 0 1, valid := true }),
  (PUSH16,
    { execute := some (.makePush 16 16), constantGas := GasFastestStep,
      minStack := minStack 0 1, maxStack := maxStack 0 1, valid := true }),
  (PUSH17,
    { execute := some (.makePush 17 17), constantGas := GasFastestStep,
      minStack := minStack 0 1, maxStack := maxStack 0 1, valid := true }),
  (PUSH18,
    { execute := some (.makePush 18 18), constantGas := GasFastestStep,
      minStack := minStack 0 1, maxStack := maxStack 0 1, valid := true }),
  (PUSH19,
    { execute := some (.makePush 19 19), constantGas := GasFastestStep,
      minStack := minStack 0 1, maxStack := maxStack 0 1, valid := true }),
  (PUSH20,
    { execute := some (.makePush 20 20), constantGas := GasFastestStep,
      minStack := minStack 0 1, maxStack := maxStack 0 1, valid := true }),
  (PUSH21,
    { execute := some (.makePush 21 21), constantGas := GasFastestStep,
      minStack := minStack 0 1, maxStack := maxStack 0 1, valid := true }),
  (PUSH22,
    { execute := some (.makePush 22 22), constantGas := GasFastestStep,
      minStack := minStack 0 1, maxStack := maxStack 0 1, valid := true }),
  (PUSH23,
    { execute := some (.makePush 23 23), constantGas := GasFastestStep,
      minStack := minStack 0 1, maxStack := maxStack 0 1, valid := true }),
  (PUSH24,
    { execute := some (.makePush 24 24), constantGas := GasFastestStep,
      minStack := minStack 0 1, maxStack := maxStack 0 1, valid := true }),
  (PUSH25,
    { execute := some (.makePush 25 25), constantGas := GasFastestStep,
      minStack := minStack 0 1, maxStack := maxStack 0 1, valid := true }),
  (PUSH26,
    { execute := some (.makePush 26 26), constantGas := GasFastestStep,
      minStack := minStack 0 1, maxStack := maxStack 0 1, valid := true }),
  (PUSH27,
    { execute := some (.makePush 27 27), constantGas := GasFastestStep,
      minStack := minStack 0 1, maxStack := maxStack 0 1, valid := true }),
  (PUSH28,
    { execute := some (.makePush 28 28), constantGas := GasFastestStep,
      minStack := minStack 0 1, maxStack := maxStack 0 1, valid := true }),
  (PUSH29,
    { execute := some (.makePush 29 29), constantGas := GasFastestStep,
      minStack := minStack 0 1, maxStack := maxStack 0 1, valid := true }),
  (PUSH30,
    { execute := some (.makePush 30 30), constantGas := GasFastestStep,
      minStack := minStack 0 1, maxStack := maxStack 0 1, valid := true }),
  (PUSH31,
    { execute := some (.makePush 31 31), constantGas := GasFastestStep,
      minStack := minStack 0 1, maxStack := maxStack 0 1, valid := true }),
  (PUSH32,
    { execute := some (.makePush 32 32), constantGas := GasFastestStep,
      minStack := minStack 0 1, maxStack := maxStack 0 1, valid := true }),
  (DUP1,
    { execute := some (.makeDup 1), constantGas := GasFastestStep, minStack := minDupStack 1,
      maxStack := maxDupStack 1, valid := true }),
  (DUP2,
    { execute := some (.makeDup 2), constantGas := GasFastestStep, minStack := minDupStack 2,
      maxStack := maxDupStack 2, valid := true }),
  (DUP3,
    { execute := some (.makeDup 3), constantGas := GasFastestStep, minStack := minDupStack 3,
      maxStack := maxDupStack 3, valid := true }),
  (DUP4,
    { execute := some (.makeDup 4), constantGas := GasFastestStep, minStack := minDupStack 4,
      maxStack := maxDupStack 4, valid := true }),
  (DUP5,
    { execute := some (.makeDup 5), constantGas := GasFastestStep, minStack := minDupStack 5,
      maxStack := maxDupStack 5, valid := true }),
  (DUP6,
    { execute := some (.makeDup 6), constantGas := GasFastestStep, minStack := minDupStack 6,
      maxStack := maxDupStack 6, valid := true }),
  (DUP7,
    { execute := some (.makeDup 7), constantGas := GasFastestStep, minStack := minDupStack 7,
      maxStack := maxDupStack 7, valid := true }),
  (DUP8,
    { execute := some (.makeDup 8), constantGas := GasFastestStep, minStack := minDupStack 8,
      maxStack := maxDupStack 8, valid := true }),
  (DUP9,
    { execute := some (.makeDup 9), constantGas := GasFastestStep, minStack := minDupStack 9,
      maxStack := maxDupStack 9, valid := true }),
  (DUP10,
    { execute := some (.makeDup 10), constantGas := GasFastestStep, minStack := minDupStack 10,
      maxStack := maxDupStack 10, valid := true }),
  (DUP11,
    { execute := some (.makeDup 11), constantGas := GasFastestStep, minStack := minDupStack 11,
      maxStack := maxDupStack 11, valid := true }),
  (DUP12,
    { execute := some (.makeDup 12), constantGas := GasFastestStep, minStack := minDupStack 12,
      maxStack := maxDupStack 12, valid := true }),
  (DUP13,
    { execute := some (.makeDup 13), constantGas := GasFastestStep, minStack := minDupStack 13,
      maxStack := maxDupStack 13, valid := true }),
  (DUP14,
    { execute := some (.makeDup 14), constantGas := GasFastestStep, minStack := minDupStack 14,
      maxStack := maxDupStack 14, valid := true }),
  (DUP15,
    { execute := some (.makeDup 15), constantGas := GasFastestStep, minStack := minDupStack 15,
      maxStack := maxDupStack 15, valid := true }),
  (DUP16,
    { execute := some (.makeDup 16), constantGas := GasFastestStep, minStack := minDupStack 16,
      maxStack := maxDupStack 16, valid := true }),
  (SWAP1,
    { execute := some (.makeSwap 1), constantGas := GasFastestStep, minStack := minSwapStack 2,
      maxStack := maxSwapStack 2, valid := true }),
  (SWAP2,
    { execute := some (.makeSwap 2), constantGas := GasFastestStep, minStack := minSwapStack 3,
      maxStack := maxSwapStack 3, valid := true }),
  (SWAP3,
    { execute := some (.makeSwap 3), constantGas := GasFastestStep, minStack := minSwapStack 4,
      maxStack := maxSwapStack 4, valid := true }),
  (SWAP4,
    { execute := some (.makeSwap 4), constantGas := GasFastestStep, minStack := minSwapStack 5,
      maxStack := maxSwapStack 5, valid := true }),
  (SWAP5,
    { execute := some (.makeSwap 5), constantGas := GasFastestStep, minStack := minSwapStack 6,
      maxStack := maxSwapStack 6, valid := true }),
  (SWAP6,
    { execute := some (.makeSwap 6), constantGas := GasFastestStep, minStack := minSwapStack 7,
      maxStack := maxSwapStack 7, valid := true }),
  (SWAP7,
    { execute := some (.makeSwap 7), constantGas := GasFastestStep, minStack := minSwapStack 8,
      maxStack := maxSwapStack 8, valid := true }),
  (SWAP8,
    { execute := some (.makeSwap 8), constantGas := GasFastestStep, minStack := minSwapStack 9,
      maxStack := maxSwapStack 9, valid := true }),
  (SWAP9,
    { execute := some (.makeSwap 9), constantGas := GasFastestStep,
      minStack := minSwapStack 10, maxStack := maxSwapStack 10, valid := true }),
  (SWAP10,
    { execute := some (.makeSwap 10), constantGas := GasFastestStep,
      minStack := minSwapStack 11, maxStack := maxSwapStack 11, valid := true }),
  (SWAP11,
    { execute := some (.makeSwap 11), constantGas := GasFastestStep,
      minStack := minSwapStack 12, maxStack := maxSwapStack 12, valid := true }),
  (SWAP12,
    { execute := some (.makeSwap 12), constantGas := GasFastestStep,
      minStack := minSwapStack 13, maxStack := maxSwapStack 13, valid := true }),
  (SWAP13,
    { execute := some (.makeSwap 13), constantGas := GasFastestStep,
      minStack := minSwapStack 14, maxStack := maxSwapStack 14, valid := true }),
  (SWAP14,
    { execute := some (.makeSwap 14), constantGas := GasFastestStep,
      minStack := minSwapStack 15, maxStack := maxSwapStack 15, valid := true }),
  (SWAP15,
    { execute := some (.makeSwap 15), constantGas := GasFastestStep,
      minStack := minSwapStack 16, maxStack := maxSwapStack 16, valid := true }),
  (SWAP16,
    { execute := some (.makeSwap 16), constantGas := GasFastestStep,
      minStack := minSwapStack 17, maxStack := maxSwapStack 17, valid := true }),
  (LOG0,
    { execute := some (.makeLog 0), dynamicGas := some (.makeGasLog 0),
      minStack := minStack 2 0, maxStack := maxStack 2 0, memorySize := some .memoryLog,
      valid := true, writes := true }),
  (LOG1,
    { execute := some (.makeLog 1), dynamicGas := some (.makeGasLog 1),
      minStack := minStack 3 0, maxStack := maxStack 3 0, memorySize := some .memoryLog,
      valid := true, writes := true }),
  (LOG2,
    { execute := some (.makeLog 2), dynamicGas := some (.makeGasLog 2),
      minStack := minStack 4 0, maxStack := maxStack 4 0, memorySize := some .memoryLog,
      valid := true, writes := true }),
  (LOG3,
    { execute := some (.makeLog 3), dynamicGas := some (.makeGasLog 3),
      minStack := minStack 5 0, maxStack := maxStack 5 0, memorySize := some .memoryLog,
      valid := true, writes := true }),
  (LOG4,
    { execute := some (.makeLog 4), dynamicGas := some (.makeGasLog 4),
      minStack := minStack 6 0, maxStack := maxStack 6 0, memorySize := some .memoryLog,
      valid := true, writes := true }),
  (CREATE,
    { execute := some .opCreate, dynamicGas := some .gasCreate, minStack := minStack 3 1,
      maxStack := maxStack 3 1, memorySize := some .memoryCreate, valid := true,
      writes := true, returns := true }),
  (CALL,
    { execute := some .opCall, dynamicGas := some .gasCall, minStack := minStack 7 1,
      maxStack := maxStack 7 1, memorySize := some .memoryCall, valid := true, returns := true }),
  (CALLCODE,
    { execute := some .opCallCode, dynamicGas := some .gasCallCode, minStack := minStack 7 1,
      maxStack := maxStack 7 1, memorySize := some .memoryCall, valid := true, returns := true }),
  (RETURN,
    { execute := some .opReturn, dynamicGas := some .gasReturn, minStack := minStack 2 0,
      maxStack := maxStack 2 0, memorySize := some .memoryReturn, halts := true, valid := true }),
  (SELFDESTRUCT,
    { execute := some .opSuicide, dynamicGas := some .gasSuicide, minStack := minStack 1 0,
      maxStack := maxStack 1 0, halts := true, valid := true, writes := true })
]

def newFrontierInstructionSet : JumpTable := fun op => (frontierEntries.lookup op).getD {}

def newHomesteadInstructionSet : JumpTable :=
  let t := newFrontierInstructionSet
  Function.update t DELEGATECALL
    { execute := some .opDelegateCall, dynamicGas := some .gasDelegateCall,
      minStack := minStack 6 1, maxStack := maxStack 6 1,
      memorySize := some .memoryDelegateCall, valid := true, returns := true }

def newByzantiumInstructionSet : JumpTable :=
  let t := newHomesteadInstructionSet
  let t := Function.update t STATICCALL
    { execute := some .opStaticCall, dynamicGas := some .gasStaticCall,
      minStack := minStack 6 1, maxStack := maxStack 6 1,
      memorySize := some .memoryStaticCall, valid := true, returns := true }
  let t := Function.update t RETURNDATASIZE
    { execute := some .opReturnDataSize, constantGas := GasQuickStep,
      minStack := minStack 0 1, maxStack := maxStack 0 1, valid := true }
  let t := Function.update t RETURNDATACOPY
    { execute := some .opReturnDataCopy, dynamicGas := some .gasReturnDataCopy,
      minStack := minStack 3 0, maxStack := maxStack 3 0,
      memorySize := some .memoryReturnDataCopy, valid := true }
  Function.update t REVERT
    { execute := some .opRevert, dynamicGas := some .gasRevert, minStack := minStack 2 0,
      maxStack := maxStack 2 0, memorySize := some .memoryRevert, valid := true,
      reverts := true, returns := true }

def newConstantinopleInstructionSet : JumpTable :=
  let t := newByzantiumInstructionSet
  let t := Function.update t SHL
    { execute := some .opSHL, constantGas := GasFastestStep, minStack := minStack 2 1,
      maxStack := maxStack 2 1, valid := true }
  let t := Function.update t SHR
    { execute := some .opSHR, constantGas := GasFastestStep, minStack := minStack 2 1,
      maxStack := maxStack 2 1, valid := true }
  let t := Function.update t SAR
    { execute := some .opSAR, constantGas := GasFastestStep, minStack := minStack 2 1,
      maxStack := maxStack 2 1, valid := true }
  let t := Function.update t EXTCODEHASH
    { execute := some .opExtCodeHash, dynamicGas := some .gasExtCodeHash,
      minStack := minStack 1 1, maxStack := maxStack 1 1, valid := true }
  Function.update t CREATE2
    { execute := some .opCreate2, dynamicGas := some .gasCreate2, minStack := minStack 4 1,
      maxStack := maxStack 4 1, memorySize := some .memoryCreate2, valid := true,
      writes := true, returns := true }

/-- The tables `NewEVMInterpreter` chooses from. -/
def instructionSets : List JumpTable :=
  [newFrontierInstructionSet, newHomesteadInstructionSet, newByzantiumInstructionSet,
      newConstantinopleInstructionSet]

end Btp.Vm
