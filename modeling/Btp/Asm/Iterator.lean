import Mathlib
import Btp.Vm.OpCodes

/-!
# Walking the instructions of EVM code

`core/asm/asm.go`: the instruction iterator, and the loop of
`PrintDisassembled` and `Disassemble` that walks it. A push is read with the
bytes it pushes as its argument; a push cut short by the end of the code ends
the walk with an error. `Disassemble` formats each instruction with the name
of its opcode; here it returns the position, opcode and argument it formats,
as the names of `opCodeToString` are not modelled.

The main result is the round trip (`Disassemble_encode`): the code made of
instructions whose pushes carry their bytes walks back to those instructions,
each at its position.
-/

namespace Btp.Asm

open Btp.Vm

/-- `instructionIterator`. The error is the position of an incomplete push. -/
structure instructionIterator where
  code : List UInt8
  pc : Nat
  arg : Option (List UInt8)
  op : OpCode
  error : Option Nat
  started : Bool

/-- `NewInstructionIterator`. -/
def NewInstructionIterator (code : List UInt8) : instructionIterator :=
  ⟨code, 0, none, STOP, none, false⟩

/-- The number of bytes a push opcode pushes. -/
def pushWidth (op : OpCode) : Nat := op.toNat - PUSH1.toNat + 1

namespace instructionIterator

/-- The first part of `Next`: move past the argument of the current
instruction, or start at the first. -/
def advance (it : instructionIterator) : instructionIterator :=
  if it.started then { it with pc := it.pc + (it.arg.map List.length).getD 0 + 1 }
  else { it with started := true }

/-- The second part of `Next`: read the instruction at the position. -/
def read (it : instructionIterator) : Bool × instructionIterator :=
  if it.code.length ≤ it.pc then (false, it)
  else
    let it := { it with op := it.code.getD it.pc 0 }
    if IsPush it.op then
      if it.code.length < it.pc + 1 + pushWidth it.op then (false, { it with error := some it.pc })
      else (true, { it with arg := some ((it.code.drop (it.pc + 1)).take (pushWidth it.op)) })
    else (true, { it with arg := none })

/-- `Next`: move to the next instruction and read it; `false` at the end and
after an error. -/
def Next (it : instructionIterator) : Bool × instructionIterator :=
  if it.error.isSome || decide (it.code.length ≤ it.pc) then (false, it) else it.advance.read

/-- The loop `for it.Next() { … }`: the position, opcode and argument of each
instruction it visits, and the iterator it ends with. -/
def walk : Nat → instructionIterator → List (Nat × OpCode × Option (List UInt8)) × instructionIterator
  | 0, it => ([], it)
  | fuel + 1, it =>
    let (more, it) := it.Next
    if more then
      let (rest, last) := walk fuel it
      ((it.pc, it.op, it.arg) :: rest, last)
    else ([], it)

end instructionIterator

/-- `Disassemble`: the instructions of `script`, or nothing when the walk ends
on an error. -/
def Disassemble (script : List UInt8) : Option (List (Nat × OpCode × Option (List UInt8))) :=
  let r := (NewInstructionIterator script).walk (script.length + 1)
  if r.2.error.isSome then none else some r.1

/-! ## The round trip -/

/-- An instruction as the iterator reads it: a push carries as many bytes as
it pushes, any other opcode nothing. -/
def Instr.WellFormed (i : OpCode × Option (List UInt8)) : Prop :=
  if IsPush i.1 then ∃ a, i.2 = some a ∧ a.length = pushWidth i.1 else i.2 = none

/-- The bytes of instructions: each opcode, then its argument. -/
def encode : List (OpCode × Option (List UInt8)) → List UInt8
  | [] => []
  | (op, arg) :: is => op :: arg.getD [] ++ encode is

/-- Instructions placed from position `pc` on. -/
def placed : Nat → List (OpCode × Option (List UInt8)) → List (Nat × OpCode × Option (List UInt8))
  | _, [] => []
  | pc, (op, arg) :: is => (pc, op, arg) :: placed (pc + 1 + (arg.getD []).length) is

namespace instructionIterator

/-- What holds between two instructions of the walk: the code read so far is
`pre`, the next instruction starts right after it, and the current one is in
the code. -/
structure Between (pre : List UInt8) (it : instructionIterator) : Prop where
  error : it.error = none
  next : it.advance.pc = pre.length
  current : it.started = true → it.pc < pre.length

@[simp] theorem advance_code (it : instructionIterator) : it.advance.code = it.code := by
  unfold advance; split <;> rfl

@[simp] theorem advance_error (it : instructionIterator) : it.advance.error = it.error := by
  unfold advance; split <;> rfl

@[simp] theorem advance_started (it : instructionIterator) : it.advance.started = true := by
  unfold advance; split <;> simp_all

theorem getD_append_encode {pre : List UInt8} {op : OpCode} {arg : Option (List UInt8)}
    {is : List (OpCode × Option (List UInt8))} :
    (pre ++ encode ((op, arg) :: is)).getD pre.length 0 = op := by
  simp [encode, List.getD_eq_getElem?_getD]

/-- Reading a well-formed instruction where it starts. -/
theorem read_encode {pre : List UInt8} {op : OpCode} {arg : Option (List UInt8)}
    {is : List (OpCode × Option (List UInt8))} (hwf : Instr.WellFormed (op, arg))
    (it : instructionIterator) (hcode : it.code = pre ++ encode ((op, arg) :: is))
    (hpc : it.pc = pre.length) (herr : it.error = none) (hstarted : it.started = true) :
    it.read = (true, { it with op := op, arg := arg }) ∧
      Between (pre ++ op :: arg.getD []) { it with op := op, arg := arg } := by
  have hlen : it.code.length = pre.length + 1 + (arg.getD []).length + (encode is).length := by
    simp [hcode, encode]
    omega
  have hop : it.code.getD it.pc 0 = op := by rw [hcode, hpc]; exact getD_append_encode
  have hbetween : Between (pre ++ op :: arg.getD []) { it with op := op, arg := arg } :=
    ⟨herr, by simp [advance, hstarted, hpc]; cases arg <;> simp; omega, fun _ => by simp [hpc]⟩
  refine ⟨?_, hbetween⟩
  unfold read
  rw [if_neg (by omega)]
  simp only [hop]
  unfold Instr.WellFormed at hwf
  split_ifs at hwf ⊢ with hpush hshort
  · -- a push whose bytes are all there
    obtain ⟨a, rfl, ha⟩ := hwf
    simp only [Option.getD_some] at hlen
    dsimp only at ha
    omega
  · obtain ⟨a, rfl, ha⟩ := hwf
    rw [hcode, hpc, ← ha]
    simp [encode]
  · have harg : arg = none := hwf
    rw [harg]

/-- One step of the walk reads the next instruction of the code. -/
theorem Next_encode {pre : List UInt8} {op : OpCode} {arg : Option (List UInt8)}
    {is : List (OpCode × Option (List UInt8))} (hwf : Instr.WellFormed (op, arg))
    {it : instructionIterator} (hcode : it.code = pre ++ encode ((op, arg) :: is))
    (hb : Between pre it) :
    it.Next = (true, { it.advance with op := op, arg := arg }) ∧
      Between (pre ++ op :: arg.getD []) { it.advance with op := op, arg := arg } := by
  have hlen : it.code.length = pre.length + 1 + (arg.getD []).length + (encode is).length := by
    simp [hcode, encode]
    omega
  -- the current instruction ends where the next starts, within the code
  have hpc : it.pc < it.code.length := by
    have hn := hb.next
    unfold advance at hn
    split_ifs at hn <;> simp at hn <;> omega
  obtain ⟨hread, hb'⟩ := read_encode hwf it.advance (by simpa using hcode) hb.next
    (by simpa using hb.error) (advance_started it)
  refine ⟨?_, hb'⟩
  unfold Next
  rw [if_neg (by simp [hb.error, hpc]), hread]

/-- At the end of the code the walk stops, without an error. -/
theorem Next_end {pre : List UInt8} {it : instructionIterator} (hcode : it.code = pre)
    (hb : Between pre it) : (it.Next).1 = false ∧ (it.Next).2.error = none := by
  unfold Next
  split_ifs
  · exact ⟨rfl, hb.error⟩
  · unfold read
    rw [if_pos (by rw [advance_code, hcode, hb.next])]
    exact ⟨rfl, by simp [hb.error]⟩

/-- The walk from between two instructions reads the rest of them, each at
its position, and ends without an error. -/
theorem walk_encode (is : List (OpCode × Option (List UInt8))) (hwf : ∀ i ∈ is, Instr.WellFormed i)
    (pre : List UInt8) (it : instructionIterator) (hcode : it.code = pre ++ encode is)
    (hb : Between pre it) (fuel : Nat) (hfuel : is.length < fuel) :
    (it.walk fuel).1 = placed pre.length is ∧ (it.walk fuel).2.error = none := by
  induction is generalizing pre it fuel with
  | nil =>
    obtain ⟨fuel, rfl⟩ : ∃ f, fuel = f + 1 := ⟨fuel - 1, by simp at hfuel; omega⟩
    obtain ⟨hmore, herr⟩ := Next_end (by simpa [encode] using hcode) hb
    have hN : it.Next = (false, (it.Next).2) := Prod.ext hmore rfl
    unfold walk
    rw [hN]
    exact ⟨rfl, herr⟩
  | cons i is ih =>
    obtain ⟨op, arg⟩ := i
    obtain ⟨fuel, rfl⟩ : ∃ f, fuel = f + 1 := ⟨fuel - 1, by simp at hfuel; omega⟩
    obtain ⟨hnext, hb'⟩ := Next_encode (hwf _ (by simp)) hcode hb
    -- the rest of the code is the rest of the instructions, after this one
    have hrest : ({ it.advance with op := op, arg := arg } : instructionIterator).code =
        (pre ++ op :: arg.getD []) ++ encode is := by
      simp [hcode, encode]
    obtain ⟨h₁, h₂⟩ := ih (fun i hi => hwf i (by simp [hi])) _ _ hrest hb' fuel
      (by simp at hfuel; omega)
    have hpc : it.advance.pc = pre.length := hb.next
    unfold walk
    rw [hnext]
    dsimp only
    rw [if_pos rfl]
    rcases hw : walk fuel { it.advance with op := op, arg := arg } with ⟨rest, last⟩
    rw [hw] at h₁ h₂
    dsimp only at h₁ h₂ ⊢
    refine ⟨?_, h₂⟩
    rw [h₁, hpc]
    simp only [placed, List.length_append, List.length_cons, List.cons.injEq, true_and]
    congr 1
    omega

end instructionIterator

/-- The code of well-formed instructions disassembles to them, each at its
position. -/
theorem Disassemble_encode (is : List (OpCode × Option (List UInt8)))
    (hwf : ∀ i ∈ is, Instr.WellFormed i) : Disassemble (encode is) = some (placed 0 is) := by
  have hlen : is.length < (encode is).length + 1 := by
    have : is.length ≤ (encode is).length := by
      induction is with
      | nil => simp [encode]
      | cons i is ih =>
        obtain ⟨op, arg⟩ := i
        simp [encode]
        have := ih (fun j hj => hwf j (by simp [hj]))
        omega
    omega
  obtain ⟨h₁, h₂⟩ := instructionIterator.walk_encode is hwf [] (NewInstructionIterator (encode is))
    rfl ⟨rfl, rfl, fun h => by cases h⟩ _ hlen
  simp only [Disassemble, h₂, Option.isSome_none, Bool.false_eq_true, if_false, h₁]
  rfl

end Btp.Asm
