import Mathlib
import Btp.Vm.Memory

/-!
# The stack, its bounds, and the memory each operation needs

`core/vm/stack.go`, `core/vm/stack_table.go` and `core/vm/memory_table.go`.
The Go stack is a slice with its top at the end; `data` here lists the items
from the top down, so that `Back n` is `data[n]`. An index out of range
panics, which the model writes as `none`.
-/

namespace Btp.Vm

/-- `params.StackLimit`. -/
def StackLimit : Nat := 1024

/-- `Stack`, top first. -/
structure Stack where
  data : List Nat

/-- `newstack`. -/
def newstack : Stack := ⟨[]⟩

namespace Stack

/-- `Stack.len`. -/
def len (st : Stack) : Nat := st.data.length

/-- `Stack.push`; the limit is the jump table's to check. -/
def push (st : Stack) (d : Nat) : Stack := ⟨d :: st.data⟩

/-- `Stack.pop`. -/
def pop (st : Stack) : Option (Nat × Stack) :=
  match st.data with
  | [] => none
  | d :: ds => some (d, ⟨ds⟩)

/-- `Stack.peek`. -/
def peek (st : Stack) : Option Nat := st.data.head?

/-- Overwrite the top item in place, as the instructions do with the
`*big.Int` that `peek` returns. -/
def setTop (st : Stack) (d : Nat) : Option Stack :=
  match st.data with
  | [] => none
  | _ :: ds => some ⟨d :: ds⟩

/-- `Stack.Back`. -/
def Back (st : Stack) (n : Nat) : Option Nat := st.data[n]?

/-- `Stack.swap`: exchange the top with the `n`-th item from the top,
counting the top as the first. -/
def swap (st : Stack) (n : Nat) : Option Stack :=
  match st.data[0]?, st.data[n - 1]? with
  | some top, some item => if n = 0 then none else some ⟨(st.data.set 0 item).set (n - 1) top⟩
  | _, _ => none

/-- `Stack.dup`: push a copy of the `n`-th item from the top. -/
def dup (st : Stack) (n : Nat) : Option Stack :=
  if n = 0 then none else (st.data[n - 1]?).map st.push

@[simp] theorem len_mk (data : List Nat) : (⟨data⟩ : Stack).len = data.length := rfl
@[simp] theorem len_push (st : Stack) (d : Nat) : (st.push d).len = st.len + 1 := rfl
@[simp] theorem pop_push (st : Stack) (d : Nat) : (st.push d).pop = some (d, st) := rfl
@[simp] theorem peek_push (st : Stack) (d : Nat) : (st.push d).peek = some d := rfl

@[simp] theorem setTop_push (st : Stack) (d e : Nat) : (st.push d).setTop e = some (st.push e) :=
  rfl

@[simp] theorem Back_push_zero (st : Stack) (d : Nat) : (st.push d).Back 0 = some d := rfl

@[simp] theorem Back_push_succ (st : Stack) (d n : Nat) : (st.push d).Back (n + 1) = st.Back n :=
  rfl

/-- An item within the stack is there: the reads of the gas and memory-size
functions, which look into the stack without popping. -/
theorem Back_eq {st : Stack} {n : Nat} (h : n < st.len) :
    st.Back n = some (st.data.get ⟨n, h⟩) :=
  List.getElem?_eq_getElem h

/-- A stack of more than `n` items is one pushed on a stack of at least `n`:
the shape the instructions pop. -/
theorem exists_push {st : Stack} {n : Nat} (h : n < st.len) :
    ∃ (d : Nat) (st' : Stack), st = st'.push d ∧ n ≤ st'.len := by
  obtain ⟨_ | ⟨d, ds⟩⟩ := st
  · simp at h
  · exact ⟨d, ⟨ds⟩, rfl, by simpa [Nat.lt_succ_iff] using h⟩

theorem dup_eq {st : Stack} {n : Nat} (hn : 0 < n) (h : n ≤ st.len) :
    ∃ d, st.dup n = some (st.push d) := by
  have hlt : n - 1 < st.data.length := by
    simp only [len] at h
    omega
  exact ⟨st.data[n - 1], by simp [dup, Nat.pos_iff_ne_zero.mp hn, List.getElem?_eq_getElem hlt]⟩

theorem swap_eq {st : Stack} {n : Nat} (hn : 0 < n) (h : n ≤ st.len) :
    ∃ st', st.swap n = some st' ∧ st'.len = st.len := by
  have h0 : 0 < st.data.length := by
    simp only [len] at h
    omega
  have hlt : n - 1 < st.data.length := by
    simp only [len] at h
    omega
  refine ⟨⟨(st.data.set 0 st.data[n - 1]).set (n - 1) st.data[0]⟩, ?_, by simp [len]⟩
  simp [swap, List.getElem?_eq_getElem h0, List.getElem?_eq_getElem hlt,
    Nat.pos_iff_ne_zero.mp hn]

end Stack

/-! ## The stack bounds of an operation -/

/-- `minStack`: the items an operation pops. -/
def minStack (pops _push : Nat) : Nat := pops

/-- `maxStack`: the largest stack on which the pushes still fit. -/
def maxStack (pop push : Nat) : Nat := StackLimit + pop - push

def minSwapStack (n : Nat) : Nat := minStack n n
def maxSwapStack (n : Nat) : Nat := maxStack n n
def minDupStack (n : Nat) : Nat := minStack n (n + 1)
def maxDupStack (n : Nat) : Nat := maxStack n (n + 1)

/-! ## The memory an operation needs -/

/-- The memory-size functions of `memory_table.go`. -/
inductive MemorySizeFunc
  | memorySha3 | memoryCallDataCopy | memoryReturnDataCopy | memoryCodeCopy
  | memoryExtCodeCopy | memoryMLoad | memoryMStore8 | memoryMStore | memoryCreate
  | memoryCreate2 | memoryCall | memoryDelegateCall | memoryStaticCall | memoryReturn
  | memoryRevert | memoryLog
  deriving DecidableEq, Repr

/-- The larger end of two accesses, as `memoryCall` and its variants compute
it. -/
def maxMemSize (x y : Nat × Bool) : Nat × Bool :=
  if x.2 then (0, true) else if y.2 then (0, true) else if x.1 > y.1 then (x.1, false) else (y.1, false)

namespace MemorySizeFunc

/-- Run a memory-size function on a stack. -/
def run (stack : Stack) : MemorySizeFunc → Option (Nat × Bool)
  | memorySha3 => do pure (calcMemSize64 (← stack.Back 0) (← stack.Back 1))
  | memoryCallDataCopy => do pure (calcMemSize64 (← stack.Back 0) (← stack.Back 2))
  | memoryReturnDataCopy => do pure (calcMemSize64 (← stack.Back 0) (← stack.Back 2))
  | memoryCodeCopy => do pure (calcMemSize64 (← stack.Back 0) (← stack.Back 2))
  | memoryExtCodeCopy => do pure (calcMemSize64 (← stack.Back 1) (← stack.Back 3))
  | memoryMLoad => do pure (calcMemSize64WithUint (← stack.Back 0) 32)
  | memoryMStore8 => do pure (calcMemSize64WithUint (← stack.Back 0) 1)
  | memoryMStore => do pure (calcMemSize64WithUint (← stack.Back 0) 32)
  | memoryCreate => do pure (calcMemSize64 (← stack.Back 1) (← stack.Back 2))
  | memoryCreate2 => do pure (calcMemSize64 (← stack.Back 1) (← stack.Back 2))
  | memoryCall => do
    let x := calcMemSize64 (← stack.Back 5) (← stack.Back 6)
    let y := calcMemSize64 (← stack.Back 3) (← stack.Back 4)
    pure (maxMemSize x y)
  | memoryDelegateCall => do
    let x := calcMemSize64 (← stack.Back 4) (← stack.Back 5)
    let y := calcMemSize64 (← stack.Back 2) (← stack.Back 3)
    pure (maxMemSize x y)
  | memoryStaticCall => do
    let x := calcMemSize64 (← stack.Back 4) (← stack.Back 5)
    let y := calcMemSize64 (← stack.Back 2) (← stack.Back 3)
    pure (maxMemSize x y)
  | memoryReturn => do pure (calcMemSize64 (← stack.Back 0) (← stack.Back 1))
  | memoryRevert => do pure (calcMemSize64 (← stack.Back 0) (← stack.Back 1))
  | memoryLog => do pure (calcMemSize64 (← stack.Back 0) (← stack.Back 1))

end MemorySizeFunc

end Btp.Vm
