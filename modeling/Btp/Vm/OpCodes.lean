import Mathlib

/-!
# EVM opcodes

`core/vm/opcodes.go`: an opcode is a byte, and the named opcodes are byte
constants. The table `stringToOp` that `StringToOp` reads is modelled; the
names of the table `opCodeToString` are not.
-/

namespace Btp.Vm

/-- `type OpCode byte`. -/
abbrev OpCode := UInt8

def STOP : OpCode := 0x00
def ADD : OpCode := 0x01
def MUL : OpCode := 0x02
def SUB : OpCode := 0x03
def DIV : OpCode := 0x04
def SDIV : OpCode := 0x05
def MOD : OpCode := 0x06
def SMOD : OpCode := 0x07
def ADDMOD : OpCode := 0x08
def MULMOD : OpCode := 0x09
def EXP : OpCode := 0x0a
def SIGNEXTEND : OpCode := 0x0b

def LT : OpCode := 0x10
def GT : OpCode := 0x11
def SLT : OpCode := 0x12
def SGT : OpCode := 0x13
def EQ : OpCode := 0x14
def ISZERO : OpCode := 0x15
def AND : OpCode := 0x16
def OR : OpCode := 0x17
def XOR : OpCode := 0x18
def NOT : OpCode := 0x19
def BYTE : OpCode := 0x1a
def SHL : OpCode := 0x1b
def SHR : OpCode := 0x1c
def SAR : OpCode := 0x1d

def SHA3 : OpCode := 0x20

def ADDRESS : OpCode := 0x30
def BALANCE : OpCode := 0x31
def ORIGIN : OpCode := 0x32
def CALLER : OpCode := 0x33
def CALLVALUE : OpCode := 0x34
def CALLDATALOAD : OpCode := 0x35
def CALLDATASIZE : OpCode := 0x36
def CALLDATACOPY : OpCode := 0x37
def CODESIZE : OpCode := 0x38
def CODECOPY : OpCode := 0x39
def GASPRICE : OpCode := 0x3a
def EXTCODESIZE : OpCode := 0x3b
def EXTCODECOPY : OpCode := 0x3c
def RETURNDATASIZE : OpCode := 0x3d
def RETURNDATACOPY : OpCode := 0x3e
def EXTCODEHASH : OpCode := 0x3f
def BLOCKHASH : OpCode := 0x40
def COINBASE : OpCode := 0x41
def TIMESTAMP : OpCode := 0x42
def NUMBER : OpCode := 0x43
def DIFFICULTY : OpCode := 0x44
def GASLIMIT : OpCode := 0x45

def POP : OpCode := 0x50
def MLOAD : OpCode := 0x51
def MSTORE : OpCode := 0x52
def MSTORE8 : OpCode := 0x53
def SLOAD : OpCode := 0x54
def SSTORE : OpCode := 0x55
def JUMP : OpCode := 0x56
def JUMPI : OpCode := 0x57
def PC : OpCode := 0x58
def MSIZE : OpCode := 0x59
def GAS : OpCode := 0x5a
def JUMPDEST : OpCode := 0x5b

def PUSH1 : OpCode := 0x60
def PUSH2 : OpCode := 0x61
def PUSH3 : OpCode := 0x62
def PUSH4 : OpCode := 0x63
def PUSH5 : OpCode := 0x64
def PUSH6 : OpCode := 0x65
def PUSH7 : OpCode := 0x66
def PUSH8 : OpCode := 0x67
def PUSH9 : OpCode := 0x68
def PUSH10 : OpCode := 0x69
def PUSH11 : OpCode := 0x6a
def PUSH12 : OpCode := 0x6b
def PUSH13 : OpCode := 0x6c
def PUSH14 : OpCode := 0x6d
def PUSH15 : OpCode := 0x6e
def PUSH16 : OpCode := 0x6f
def PUSH17 : OpCode := 0x70
def PUSH18 : OpCode := 0x71
def PUSH19 : OpCode := 0x72
def PUSH20 : OpCode := 0x73
def PUSH21 : OpCode := 0x74
def PUSH22 : OpCode := 0x75
def PUSH23 : OpCode := 0x76
def PUSH24 : OpCode := 0x77
def PUSH25 : OpCode := 0x78
def PUSH26 : OpCode := 0x79
def PUSH27 : OpCode := 0x7a
def PUSH28 : OpCode := 0x7b
def PUSH29 : OpCode := 0x7c
def PUSH30 : OpCode := 0x7d
def PUSH31 : OpCode := 0x7e
def PUSH32 : OpCode := 0x7f
def DUP1 : OpCode := 0x80
def DUP2 : OpCode := 0x81
def DUP3 : OpCode := 0x82
def DUP4 : OpCode := 0x83
def DUP5 : OpCode := 0x84
def DUP6 : OpCode := 0x85
def DUP7 : OpCode := 0x86
def DUP8 : OpCode := 0x87
def DUP9 : OpCode := 0x88
def DUP10 : OpCode := 0x89
def DUP11 : OpCode := 0x8a
def DUP12 : OpCode := 0x8b
def DUP13 : OpCode := 0x8c
def DUP14 : OpCode := 0x8d
def DUP15 : OpCode := 0x8e
def DUP16 : OpCode := 0x8f
def SWAP1 : OpCode := 0x90
def SWAP2 : OpCode := 0x91
def SWAP3 : OpCode := 0x92
def SWAP4 : OpCode := 0x93
def SWAP5 : OpCode := 0x94
def SWAP6 : OpCode := 0x95
def SWAP7 : OpCode := 0x96
def SWAP8 : OpCode := 0x97
def SWAP9 : OpCode := 0x98
def SWAP10 : OpCode := 0x99
def SWAP11 : OpCode := 0x9a
def SWAP12 : OpCode := 0x9b
def SWAP13 : OpCode := 0x9c
def SWAP14 : OpCode := 0x9d
def SWAP15 : OpCode := 0x9e
def SWAP16 : OpCode := 0x9f
def LOG0 : OpCode := 0xa0
def LOG1 : OpCode := 0xa1
def LOG2 : OpCode := 0xa2
def LOG3 : OpCode := 0xa3
def LOG4 : OpCode := 0xa4

def CREATE : OpCode := 0xf0
def CALL : OpCode := 0xf1
def CALLCODE : OpCode := 0xf2
def RETURN : OpCode := 0xf3
def DELEGATECALL : OpCode := 0xf4
def CREATE2 : OpCode := 0xf5

def STATICCALL : OpCode := 0xfa

def REVERT : OpCode := 0xfd

def SELFDESTRUCT : OpCode := 0xff

/-- `OpCode.IsPush`: one of `PUSH1` to `PUSH32`, the opcodes `0x60` to `0x7f`. -/
def IsPush (op : OpCode) : Bool := PUSH1 ≤ op && op ≤ PUSH32

/-- `stringToOp`: the opcodes by name. -/
def stringToOp : List (List Char × OpCode) :=
  [("STOP".toList, STOP), ("ADD".toList, ADD), ("MUL".toList, MUL), ("SUB".toList, SUB),
   ("DIV".toList, DIV), ("SDIV".toList, SDIV), ("MOD".toList, MOD), ("SMOD".toList, SMOD),
   ("EXP".toList, EXP), ("NOT".toList, NOT), ("LT".toList, LT), ("GT".toList, GT),
   ("SLT".toList, SLT), ("SGT".toList, SGT), ("EQ".toList, EQ), ("ISZERO".toList, ISZERO),
   ("SIGNEXTEND".toList, SIGNEXTEND), ("AND".toList, AND), ("OR".toList, OR),
   ("XOR".toList, XOR), ("BYTE".toList, BYTE), ("SHL".toList, SHL), ("SHR".toList, SHR),
   ("SAR".toList, SAR), ("ADDMOD".toList, ADDMOD), ("MULMOD".toList, MULMOD),
   ("SHA3".toList, SHA3), ("ADDRESS".toList, ADDRESS), ("BALANCE".toList, BALANCE),
   ("ORIGIN".toList, ORIGIN), ("CALLER".toList, CALLER), ("CALLVALUE".toList, CALLVALUE),
   ("CALLDATALOAD".toList, CALLDATALOAD), ("CALLDATASIZE".toList, CALLDATASIZE),
   ("CALLDATACOPY".toList, CALLDATACOPY), ("DELEGATECALL".toList, DELEGATECALL),
   ("STATICCALL".toList, STATICCALL), ("CODESIZE".toList, CODESIZE),
   ("CODECOPY".toList, CODECOPY), ("GASPRICE".toList, GASPRICE),
   ("EXTCODESIZE".toList, EXTCODESIZE), ("EXTCODECOPY".toList, EXTCODECOPY),
   ("RETURNDATASIZE".toList, RETURNDATASIZE), ("RETURNDATACOPY".toList, RETURNDATACOPY),
   ("EXTCODEHASH".toList, EXTCODEHASH), ("BLOCKHASH".toList, BLOCKHASH),
   ("COINBASE".toList, COINBASE), ("TIMESTAMP".toList, TIMESTAMP), ("NUMBER".toList, NUMBER),
   ("DIFFICULTY".toList, DIFFICULTY), ("GASLIMIT".toList, GASLIMIT), ("POP".toList, POP),
   ("MLOAD".toList, MLOAD), ("MSTORE".toList, MSTORE), ("MSTORE8".toList, MSTORE8),
   ("SLOAD".toList, SLOAD), ("SSTORE".toList, SSTORE), ("JUMP".toList, JUMP),
   ("JUMPI".toList, JUMPI), ("PC".toList, PC), ("MSIZE".toList, MSIZE), ("GAS".toList, GAS),
   ("JUMPDEST".toList, JUMPDEST), ("PUSH1".toList, PUSH1), ("PUSH2".toList, PUSH2),
   ("PUSH3".toList, PUSH3), ("PUSH4".toList, PUSH4), ("PUSH5".toList, PUSH5),
   ("PUSH6".toList, PUSH6), ("PUSH7".toList, PUSH7), ("PUSH8".toList, PUSH8),
   ("PUSH9".toList, PUSH9), ("PUSH10".toList, PUSH10), ("PUSH11".toList, PUSH11),
   ("PUSH12".toList, PUSH12), ("PUSH13".toList, PUSH13), ("PUSH14".toList, PUSH14),
   ("PUSH15".toList, PUSH15), ("PUSH16".toList, PUSH16), ("PUSH17".toList, PUSH17),
   ("PUSH18".toList, PUSH18), ("PUSH19".toList, PUSH19), ("PUSH20".toList, PUSH20),
   ("PUSH21".toList, PUSH21), ("PUSH22".toList, PUSH22), ("PUSH23".toList, PUSH23),
   ("PUSH24".toList, PUSH24), ("PUSH25".toList, PUSH25), ("PUSH26".toList, PUSH26),
   ("PUSH27".toList, PUSH27), ("PUSH28".toList, PUSH28), ("PUSH29".toList, PUSH29),
   ("PUSH30".toList, PUSH30), ("PUSH31".toList, PUSH31), ("PUSH32".toList, PUSH32),
   ("DUP1".toList, DUP1), ("DUP2".toList, DUP2), ("DUP3".toList, DUP3), ("DUP4".toList, DUP4),
   ("DUP5".toList, DUP5), ("DUP6".toList, DUP6), ("DUP7".toList, DUP7), ("DUP8".toList, DUP8),
   ("DUP9".toList, DUP9), ("DUP10".toList, DUP10), ("DUP11".toList, DUP11),
   ("DUP12".toList, DUP12), ("DUP13".toList, DUP13), ("DUP14".toList, DUP14),
   ("DUP15".toList, DUP15), ("DUP16".toList, DUP16), ("SWAP1".toList, SWAP1),
   ("SWAP2".toList, SWAP2), ("SWAP3".toList, SWAP3), ("SWAP4".toList, SWAP4),
   ("SWAP5".toList, SWAP5), ("SWAP6".toList, SWAP6), ("SWAP7".toList, SWAP7),
   ("SWAP8".toList, SWAP8), ("SWAP9".toList, SWAP9), ("SWAP10".toList, SWAP10),
   ("SWAP11".toList, SWAP11), ("SWAP12".toList, SWAP12), ("SWAP13".toList, SWAP13),
   ("SWAP14".toList, SWAP14), ("SWAP15".toList, SWAP15), ("SWAP16".toList, SWAP16),
   ("LOG0".toList, LOG0), ("LOG1".toList, LOG1), ("LOG2".toList, LOG2), ("LOG3".toList, LOG3),
   ("LOG4".toList, LOG4), ("CREATE".toList, CREATE), ("CREATE2".toList, CREATE2),
   ("CALL".toList, CALL), ("RETURN".toList, RETURN), ("CALLCODE".toList, CALLCODE),
   ("REVERT".toList, REVERT), ("SELFDESTRUCT".toList, SELFDESTRUCT)]

/-- `StringToOp`: the opcode named `str`, and `STOP`, the zero value, for a
string that names none. -/
def StringToOp (str : List Char) : OpCode := (stringToOp.lookup str).getD STOP

end Btp.Vm
