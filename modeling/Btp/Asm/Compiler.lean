import Mathlib
import Btp.Asm.Lexer
import Btp.Lib.ByteBits
import Btp.Lib.GoSlice
import Btp.Vm.OpCodes

/-!
# The compiler of the assembler

`core/asm/compiler.go`, and `Compile` of `cmd/evm/internal/compiler`, which
runs it on the tokens of `Lex`.

`Feed` is the first pass: it counts the bytes each token will take, and
records the count at each label definition as the label's position. `Compile`
is the second: it compiles line by line, and writes the code in hexadecimal.
The two passes count differently in two places, which the lemmas of this
module state for every line: `push @name` takes five bytes where `Feed`
counts six, so every label after it is placed one byte too far, and a jump to
a number or a string emits its operand without a `PUSH`, so that the operand
runs as code.

`math.MustParseBig256` of `common/math` is given by its specification, and
`big.Int.Bytes` is `ByteBits.toBytesBE`. The sources are ASCII, as for the
lexer, so that `strings.ToUpper` is `Char.toUpper` and the bytes of a string
are its runes. A panic is `none`.
-/

namespace Btp.Asm

open Btp.Vm ByteBits

/-! ## Numbers -/

/-- The value of a digit, in any base up to 16. -/
def digitVal (c : Char) : Option Nat :=
  if c.isDigit then some (c.toNat - '0'.toNat)
  else if 'a' ≤ c ∧ c ≤ 'f' then some (c.toNat - 'a'.toNat + 10)
  else if 'A' ≤ c ∧ c ≤ 'F' then some (c.toNat - 'A'.toNat + 10)
  else none

/-- `big.Int.SetString` of an unsigned number in `base`: at least one digit,
each below the base. -/
def parseDigits (base : Nat) (s : List Char) : Option Nat :=
  if s = [] then none
  else s.foldlM (fun acc c => (digitVal c).bind fun d => if d < base then some (acc * base + d)
    else none) 0

/-- `math.MustParseBig256`: a decimal number, or a hexadecimal one after `0x`
or `0X`, below `2^256`; the empty text is zero, and anything else panics. A
sign, which no number token holds, is not modelled. -/
def MustParseBig256 (s : List Char) : Option Nat := do
  let v ← match s with
    | [] => some 0
    | '0' :: 'x' :: rest => parseDigits 16 rest
    | '0' :: 'X' :: rest => parseDigits 16 rest
    | _ => parseDigits 10 s
  if v < 2 ^ 256 then some v else none

/-- `Bytes()` of a number, which the compiler makes one zero byte when it is
empty. -/
def numberBytes (n : Nat) : List UInt8 := if (toBytesBE n).length = 0 then [0] else toBytesBE n

/-! ## The compiler -/

/-- The values `pushBin` appends: an opcode, bytes, or the Go string that a
jump to a string pushes. -/
inductive binItem
  | op (op : OpCode)
  | bytes (b : List UInt8)
  | str (s : List Char)
  deriving DecidableEq, Repr

/-- The errors of `Compile`: `compileError`, and the error of a push of more
than 32 bytes. -/
inductive CompileError
  | compileError (got want : List Char) (lineno : Nat)
  | sizeError (lineno : Nat)
  deriving DecidableEq, Repr

/-- `Compiler`. `labels` is a Go map, read with the zero value for a missing
name. -/
structure Compiler where
  tokens : List token
  binary : List binItem
  labels : List Char → Nat
  pc : Nat
  pos : Nat

/-- `NewCompiler`. -/
def NewCompiler : Compiler := ⟨[], [], fun _ => 0, 0, 0⟩

namespace Compiler

/-- One turn of `Feed`: the bytes the token will take, and the position of
the label it defines. A string token holds its two quotes. -/
def feed (c : Compiler) (i : token) : Option Compiler := do
  let c ← match i.typ with
    | .number => (MustParseBig256 i.text).map fun n => { c with pc := c.pc + (numberBytes n).length }
    | .stringValue => some { c with pc := c.pc + (i.text.length - 2) }
    | .element => some { c with pc := c.pc + 1 }
    | .labelDef =>
      some { c with labels := fun name => if name = i.text then c.pc else c.labels name,
                    pc := c.pc + 1 }
    | .label => some { c with pc := c.pc + 5 }
    | _ => some c
  pure { c with tokens := c.tokens ++ [i] }

/-- `Feed`: the first pass, over every token of the channel. -/
def Feed (c : Compiler) (ch : List token) : Option Compiler := ch.foldlM feed c

/-- `next`: the token at the position, which panics past the end. -/
def next (c : Compiler) : Option (token × Compiler) :=
  c.tokens[c.pos]?.map fun t => (t, { c with pos := c.pos + 1 })

/-- `pushBin`. -/
def pushBin (c : Compiler) (v : binItem) : Compiler := { c with binary := c.binary ++ [v] }

end Compiler

/-- `compileErr`. -/
def compileErr (c : token) (got want : List Char) : CompileError := .compileError got want c.lineno

/-- `isPush`. -/
def isPush (op : List Char) : Bool := op.map Char.toUpper == "PUSH".toList

/-- `isJump`. -/
def isJump (op : List Char) : Bool :=
  op.map Char.toUpper == "JUMPI".toList || op.map Char.toUpper == "JUMP".toList

/-- `toBinary`. -/
def toBinary (text : List Char) : OpCode := StringToOp (text.map Char.toUpper)

/-- The opcode that pushes `n` bytes: `PUSH1 - 1 + n`, as a byte. -/
def pushOp (n : Nat) : OpCode := (PUSH1.toNat - 1 + n).toUInt8

/-- `[]byte` of a string of ASCII runes. -/
def stringBytes (s : List Char) : List UInt8 := s.map fun r => r.toNat.toUInt8

namespace Compiler

/-- `compileNumber`: push the bytes of the number. -/
def compileNumber (c : Compiler) (element : token) : Option (Nat × Compiler) :=
  (MustParseBig256 element.text).map fun n =>
    ((numberBytes n).length, c.pushBin (.bytes (numberBytes n)))

/-- The operand of a jump and the jump, by the kind of the operand: a number's
bytes, the string without its quotes, or `PUSH4` with the label's position
right-aligned in four bytes; `none` inside for a token that is none of them. -/
def jumpOperand (c : Compiler) (element rvalue : token) : Option (Option Compiler) :=
  match rvalue.typ with
  | .number => (c.compileNumber rvalue).map fun (_, c) => some (c.pushBin (.op (toBinary element.text)))
  -- strings are quoted: `rvalue.text[1 : len(rvalue.text)-2]`
  | .stringValue => (GoSlice.get rvalue.text 1 ((rvalue.text.length : Int) - 2)).map fun s =>
      some ((c.pushBin (.str s)).pushBin (.op (toBinary element.text)))
  | .label =>
    let pos := toBytesBE (c.labels rvalue.text)
    -- `make([]byte, 4-len(pos))` panics on a negative length
    if 4 < pos.length then none
    else some (some (((c.pushBin (.op PUSH4)).pushBin
      (.bytes (List.replicate (4 - pos.length) 0 ++ pos))).pushBin (.op (toBinary element.text))))
  | _ => some none

/-- The value a `push` pushes, by the kind of its operand: a number's bytes,
the string without its quotes, or the label's position copied into the front
of four zero bytes; `none` inside for a token that is none of them. -/
def pushValue (c : Compiler) (rvalue : token) : Option (Option (List UInt8)) :=
  match rvalue.typ with
  | .number => (MustParseBig256 rvalue.text).map fun n => some (numberBytes n)
  | .stringValue => (GoSlice.get rvalue.text 1 ((rvalue.text.length : Int) - 1)).map fun s =>
      some (stringBytes s)
  -- `copy(value, …)` writes the first bytes of the position into `value`
  | .label =>
    let pos := toBytesBE (c.labels rvalue.text)
    some (some (pos.take 4 ++ List.replicate (4 - pos.length) 0))
  | _ => some none

/-- `compileElement`: a jump and its operand, a push and its value, or
another opcode. -/
def compileElement (c : Compiler) (element : token) : Option (Option CompileError × Compiler) := do
  if isJump element.text then
    let (rvalue, c) ← c.next
    match ← c.jumpOperand element rvalue with
    | none => return (some (compileErr rvalue rvalue.text "number, string or label".toList), c)
    | some c => return (none, c)
  else if isPush element.text then
    let (rvalue, c) ← c.next
    match ← c.pushValue rvalue with
    | none => return (some (compileErr rvalue rvalue.text "number, string or label".toList), c)
    | some value =>
      if 32 < value.length then return (some (.sizeError rvalue.lineno), c)
      return (none, (c.pushBin (.op (pushOp value.length))).pushBin (.bytes value))
  else return (none, c.pushBin (.op (toBinary element.text)))

/-- `compileLabel`: a `JUMPDEST`. -/
def compileLabel (c : Compiler) : Compiler := c.pushBin (.op JUMPDEST)

/-- The end of `compileLine`: the line must end here. -/
def endLine (c : Compiler) : Option (Option CompileError × Compiler) := do
  let (n, c) ← c.next
  if n.typ ≠ .lineEnd then return (some (compileErr n n.text tokenType.lineEnd.String), c)
  return (none, c)

/-- `compileLine`: a line from its `lineStart`: the end of the tokens, an
empty line, a label definition or an element. -/
def compileLine (c : Compiler) : Option (Option CompileError × Compiler) := do
  let (n, c) ← c.next
  if n.typ ≠ .lineStart then
    return (some (compileErr n n.typ.String tokenType.lineStart.String), c)
  let (lvalue, c) ← c.next
  match lvalue.typ with
  | .eof => return (none, c)
  | .element =>
    let (err, c) ← c.compileElement lvalue
    match err with
    | some e => return (some e, c)
    | none => c.endLine
  | .labelDef => c.compileLabel.endLine
  | .lineEnd => return (none, c)
  | _ => return (some (compileErr lvalue lvalue.text "label definition or element".toList), c)

/-- The loop of `Compile`, on a fuel that the tokens bound. -/
def compileLoop : Nat → Compiler → List CompileError → Option (Compiler × List CompileError)
  | 0, c, errors => some (c, errors)
  | fuel + 1, c, errors =>
    if c.pos < c.tokens.length then do
      let (err, c) ← c.compileLine
      compileLoop fuel c (errors ++ err.toList)
    else some (c, errors)

end Compiler

/-- A byte in two lowercase hexadecimal digits, as `%x` writes it. -/
def hexByte (b : UInt8) : List Char :=
  ["0123456789abcdef".toList.getD (b.toNat / 16) '0', "0123456789abcdef".toList.getD (b.toNat % 16) '0']

/-- What `Compile` writes for an item: `%x` of an opcode's byte or of bytes;
a string is no case of the switch and writes nothing. -/
def binItem.hex : binItem → List Char
  | .op o => hexByte o
  | .bytes b => b.flatMap hexByte
  | .str _ => []

/-- `Compile`: the second pass, and the code in hexadecimal. -/
def Compiler.Compile (c : Compiler) : Option (List Char × List CompileError) := do
  let (c, errors) ← Compiler.compileLoop (c.tokens.length + 1) c []
  return (c.binary.flatMap binItem.hex, errors)

namespace compiler

/-- `Compile` of `cmd/evm`: lex, feed and compile the source; any error of the
compiler fails the compilation, after the errors are printed. -/
def Compile (src : List Char) : Option (Except (List Char) (List Char)) := do
  let c ← NewCompiler.Feed (Lex src)
  let (bin, compileErrors) ← c.Compile
  if 0 < compileErrors.length then return .error "compiling failed".toList
  return .ok bin

end compiler

/-! ## Reading the tokens -/

namespace Compiler

variable {c : Compiler} {t : token} {rest : List token}

@[simp] theorem pushBin_tokens (v : binItem) : (c.pushBin v).tokens = c.tokens := rfl
@[simp] theorem pushBin_pos (v : binItem) : (c.pushBin v).pos = c.pos := rfl
@[simp] theorem pushBin_labels (v : binItem) : (c.pushBin v).labels = c.labels := rfl
@[simp] theorem pushBin_binary (v : binItem) : (c.pushBin v).binary = c.binary ++ [v] := rfl

theorem next_eq_some {c' : Compiler} (h : c.next = some (t, c')) :
    c' = { c with pos := c.pos + 1 } := by
  unfold next at h
  obtain ⟨t', -, h⟩ := Option.map_eq_some_iff.mp h
  exact (Prod.mk.inj h).2.symm

/-- What a step of the second pass keeps: the tokens, and a position that
does not go back. -/
def Ahead (c c' : Compiler) : Prop := c'.tokens = c.tokens ∧ c.pos ≤ c'.pos

theorem Ahead.trans {c₁ c₂ c₃ : Compiler} (h₁ : Ahead c₁ c₂) (h₂ : Ahead c₂ c₃) : Ahead c₁ c₃ :=
  ⟨h₂.1.trans h₁.1, h₁.2.trans h₂.2⟩

theorem Ahead.pushBin {c' : Compiler} (h : Ahead c c') (v : binItem) : Ahead c (c'.pushBin v) := h

theorem next_ahead {c' : Compiler} (h : c.next = some (t, c')) :
    c'.tokens = c.tokens ∧ c'.pos = c.pos + 1 := by
  rw [next_eq_some h]
  exact ⟨rfl, rfl⟩

theorem jumpOperand_ahead {element rvalue : token} {c' : Compiler}
    (h : c.jumpOperand element rvalue = some (some c')) : Ahead c c' := by
  unfold jumpOperand compileNumber at h
  split at h
  · simp only [Option.map_map, Function.comp_def] at h
    obtain ⟨n, -, h⟩ := Option.map_eq_some_iff.mp h
    cases h
    exact ⟨rfl, le_rfl⟩
  · obtain ⟨s, -, h⟩ := Option.map_eq_some_iff.mp h
    cases h
    exact ⟨rfl, le_rfl⟩
  · dsimp only at h
    split at h
    · cases h
    · cases h
      exact ⟨rfl, le_rfl⟩
  · cases h

theorem compileElement_ahead {element : token} {err : Option CompileError} {c' : Compiler}
    (h : c.compileElement element = some (err, c')) : Ahead c c' := by
  unfold compileElement at h
  split at h
  · -- a jump reads its operand, and writes it and itself
    obtain ⟨⟨rvalue, c₁⟩, hn, h⟩ := Option.bind_eq_some_iff.mp h
    have h₁ : Ahead c c₁ := by
      obtain ⟨ht, hp⟩ := next_ahead hn
      exact ⟨ht, by omega⟩
    obtain ⟨o, ho, h⟩ := Option.bind_eq_some_iff.mp h
    cases o with
    | none => cases h; exact h₁
    | some c₂ => cases h; exact h₁.trans (jumpOperand_ahead ho)
  · split at h
    · -- a push reads its operand, and writes its value
      obtain ⟨⟨rvalue, c₁⟩, hn, h⟩ := Option.bind_eq_some_iff.mp h
      have h₁ : Ahead c c₁ := by
        obtain ⟨ht, hp⟩ := next_ahead hn
        exact ⟨ht, by omega⟩
      obtain ⟨o, -, h⟩ := Option.bind_eq_some_iff.mp h
      cases o with
      | none => cases h; exact h₁
      | some value =>
        dsimp only at h
        split at h
        · cases h; exact h₁
        · cases h; exact h₁
    · cases h
      exact ⟨rfl, le_rfl⟩

theorem endLine_ahead {err : Option CompileError} {c' : Compiler}
    (h : c.endLine = some (err, c')) : c'.tokens = c.tokens ∧ c.pos < c'.pos := by
  unfold endLine at h
  obtain ⟨⟨n, c₁⟩, hn, h⟩ := Option.bind_eq_some_iff.mp h
  obtain ⟨ht, hp⟩ := next_ahead hn
  dsimp only at h
  split at h <;> cases h <;> exact ⟨ht, by omega⟩

/-- Each line reads at least its `lineStart`. -/
theorem compileLine_ahead {err : Option CompileError} {c' : Compiler}
    (h : c.compileLine = some (err, c')) : c'.tokens = c.tokens ∧ c.pos < c'.pos := by
  unfold compileLine at h
  obtain ⟨⟨n, c₁⟩, hn, h⟩ := Option.bind_eq_some_iff.mp h
  obtain ⟨ht₁, hp₁⟩ := next_ahead hn
  dsimp only at h
  split at h
  · cases h
    exact ⟨ht₁, by omega⟩
  obtain ⟨⟨lvalue, c₂⟩, hn₂, h⟩ := Option.bind_eq_some_iff.mp h
  obtain ⟨ht₂, hp₂⟩ := next_ahead hn₂
  dsimp only at h
  -- the first token after the `lineStart` decides
  split at h
  · cases h
    exact ⟨ht₂.trans ht₁, by omega⟩
  · obtain ⟨⟨e, c₃⟩, he, h⟩ := Option.bind_eq_some_iff.mp h
    obtain ⟨ht₃, hp₃⟩ := compileElement_ahead he
    dsimp only at h
    split at h
    · cases h
      exact ⟨ht₃.trans (ht₂.trans ht₁), by omega⟩
    · obtain ⟨ht₄, hp₄⟩ := endLine_ahead h
      exact ⟨ht₄.trans (ht₃.trans (ht₂.trans ht₁)), by omega⟩
  · obtain ⟨ht₄, hp₄⟩ := endLine_ahead h
    exact ⟨ht₄.trans (ht₂.trans ht₁), by simp [compileLabel] at hp₄; omega⟩
  · cases h
    exact ⟨ht₂.trans ht₁, by omega⟩
  · cases h
    exact ⟨ht₂.trans ht₁, by omega⟩

/-- The second pass reads all the tokens before its fuel runs out: more fuel
gives the same result. -/
theorem compileLoop_add (fuel k : Nat) (c : Compiler) (errors : List CompileError)
    (h : c.tokens.length - c.pos < fuel) :
    compileLoop (fuel + k) c errors = compileLoop fuel c errors := by
  induction fuel generalizing c errors with
  | zero => omega
  | succ fuel ih =>
    rw [Nat.add_right_comm]
    unfold compileLoop
    split_ifs with hlt
    · cases hl : c.compileLine with
      | none => rfl
      | some r =>
        obtain ⟨err, c'⟩ := r
        -- the line read its `lineStart`: less is left for the fuel
        obtain ⟨ht, hp⟩ := compileLine_ahead hl
        exact ih c' _ (by rw [ht]; omega)
    · rfl

end Compiler

end Btp.Asm
