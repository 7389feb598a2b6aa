import Mathlib
import Btp.Lib.GoSlice

/-!
# Memory and its expansion cost

`core/vm/memory.go`, the size helpers of `core/vm/common.go`, and
`memoryGasCost` of `core/vm/gas_table.go`.

Stack words are `*big.Int`s; here they are naturals, which the instructions
keep below `2^256`. The helpers of `common/math` and the constants of
`params`, which are not under `src/`, are given by their specification.
`uint64` arithmetic is written on naturals with the wrap-around made
explicit, so that where a result does not wrap, the model says so.
-/

namespace Btp.Vm

/-- `big.Int.IsUint64`. -/
def IsUint64 (x : Nat) : Bool := x < 2 ^ 64

/-- `big.Int.Uint64`: the low 64 bits. -/
def Uint64 (x : Nat) : Nat := x % 2 ^ 64

/-- `big.Int.Int64`: the low 64 bits, read as a signed number. -/
def Int64 (x : Nat) : Int :=
  if x % 2 ^ 64 < 2 ^ 63 then ((x % 2 ^ 64 : Nat) : Int) else ((x % 2 ^ 64 : Nat) : Int) - 2 ^ 64

/-- `math.SafeAdd` on `uint64`s: the wrapped sum and whether it wrapped. -/
def SafeAdd (x y : Nat) : Nat × Bool := ((x + y) % 2 ^ 64, 2 ^ 64 ≤ x + y)

/-- `math.SafeMul` on `uint64`s. -/
def SafeMul (x y : Nat) : Nat × Bool := ((x * y) % 2 ^ 64, 2 ^ 64 ≤ x * y)

/-- `params.MemoryGas`. -/
def MemoryGas : Nat := 3

/-- `params.QuadCoeffDiv`. -/
def QuadCoeffDiv : Nat := 512

/-- The errors of the interpreter and of the calls it makes. -/
inductive VmError
  | errGasUintOverflow
  | ErrOutOfGas
  | errWriteProtection
  | errReturnDataOutOfBounds
  | errExecutionReverted
  | errInvalidJump
  | errMaxCodeSizeExceeded
  | ErrDepth
  | ErrInsufficientBalance
  | ErrContractAddressCollision
  | ErrCodeStoreOutOfGas
  | invalidOpcode (op : UInt8)
  | stackUnderflow (len required : Nat)
  | stackLimitReached (len limit : Nat)
  deriving DecidableEq, Repr

/-! ## Sizes -/

/-- `toWordSize`: the words a `uint64` size takes, rounded up. -/
def toWordSize (size : Nat) : Nat :=
  if size > 2 ^ 64 - 1 - 31 then (2 ^ 64 - 1) / 32 + 1 else (size + 31) / 32

/-- `calcMemSize64WithUint`: the end of an access, and whether it overflows
`uint64`. A zero length needs no memory, whatever the offset. -/
def calcMemSize64WithUint (off : Nat) (length64 : Nat) : Nat × Bool :=
  if length64 = 0 then (0, false)
  else if !IsUint64 off then (0, true)
  else
    let val := (off + length64) % 2 ^ 64
    (val, decide (val < off))

/-- `calcMemSize64`. -/
def calcMemSize64 (off l : Nat) : Nat × Bool :=
  if !IsUint64 l then (0, true) else calcMemSize64WithUint off (Uint64 l)

/-- `common.RightPadBytes`: pad with zeros up to length `l`. -/
def RightPadBytes (slice : List UInt8) (l : Int) : List UInt8 :=
  if l ≤ slice.length then slice else slice ++ List.replicate (l.toNat - slice.length) 0

/-- `getDataBig`: `size` bytes of `data` from `start`, padded with zeros. -/
def getDataBig (data : List UInt8) (start size : Nat) : Option (List UInt8) :=
  let dlen := data.length
  let s := min start dlen
  let e := min (s + size) dlen
  -- `int(size.Uint64())` is negative from `2^63` on, and then pads nothing
  (GoSlice.get data (Uint64 s) (Uint64 e)).map fun d => RightPadBytes d (Int64 size)

/-- The 32 bytes of a word, most significant first: `math.ReadBits` into a
zeroed 32-byte buffer. -/
def wordBytes (x : Nat) : List UInt8 :=
  (List.range 32).map fun i => ((x / 256 ^ (31 - i)) % 256).toUInt8

@[simp] theorem length_wordBytes (x : Nat) : (wordBytes x).length = 32 := by
  simp [wordBytes]

/-! ## The memory -/

/-- `Memory`. -/
structure Memory where
  store : List UInt8
  lastGasCost : Nat

/-- `NewMemory`. -/
def NewMemory : Memory := ⟨[], 0⟩

namespace Memory

/-- `Memory.Len`. -/
def Len (m : Memory) : Nat := m.store.length

/-- `Memory.Set`: `offset + size` is computed in `uint64`; a store too short
panics. -/
def Set (m : Memory) (offset size : Nat) (value : List UInt8) : Option Memory :=
  if size > 0 then
    let hi := (offset + size) % 2 ^ 64
    if hi > m.Len then none
    else (GoSlice.get m.store offset hi).map fun dst =>
      { m with store := GoSlice.write m.store offset (value.take dst.length) }
  else some m

/-- `Memory.Set32`. -/
def Set32 (m : Memory) (offset : Nat) (val : Nat) : Option Memory :=
  let hi := (offset + 32) % 2 ^ 64
  if hi > m.Len then none
  else (GoSlice.get m.store offset hi).map fun _ =>
    { m with store := GoSlice.write m.store offset (wordBytes val) }

/-- `Memory.Resize`: grow with zeros, never shrink. -/
def Resize (m : Memory) (size : Nat) : Memory :=
  if m.Len < size then { m with store := GoSlice.grow m.store 0 (size - m.Len) } else m

/-- `Memory.Get`: a copy of `size` bytes from `offset`; nothing when the
offset is past the end. The arguments are `int64`s. -/
def Get (m : Memory) (offset size : Int) : Option (List UInt8) :=
  if size = 0 then some []
  else if (m.Len : Int) > offset then
    -- `make([]byte, size)` panics for a negative size
    if size < 0 then none else GoSlice.get m.store offset (offset + size)
  else some []

/-- `Memory.GetPtr`: the bytes themselves. -/
def GetPtr (m : Memory) (offset size : Int) : Option (List UInt8) :=
  if size = 0 then some []
  else if (m.Len : Int) > offset then GoSlice.get m.store offset (offset + size)
  else some []

/-- `store[off] = b` in `MSTORE8`, at an `int64` index. -/
def setByte (m : Memory) (off : Int) (b : UInt8) : Option Memory :=
  if 0 ≤ off ∧ off < m.Len then some { m with store := m.store.set off.toNat b } else none

end Memory

/-- The cost of a memory of `w` words: `MemoryGas * w + w * w / QuadCoeffDiv`. -/
def memoryCost (w : Nat) : Nat := MemoryGas * w + w * w / QuadCoeffDiv

/-- `memoryGasCost`: the cost of expanding to `newMemSize` bytes over
`lastGasCost`, the cost already paid. The products, sums and the difference
are `uint64` operations. -/
def memoryGasCost (mem : Memory) (newMemSize : Nat) : Except VmError (Nat × Memory) :=
  if newMemSize = 0 then .ok (0, mem)
  else if newMemSize > 0x1FFFFFFFE0 then .error .errGasUintOverflow
  else
    let newMemSizeWords := toWordSize newMemSize
    let newMemSize := (newMemSizeWords * 32) % 2 ^ 64
    if newMemSize > mem.Len then
      let square := (newMemSizeWords * newMemSizeWords) % 2 ^ 64
      let linCoef := (newMemSizeWords * MemoryGas) % 2 ^ 64
      let quadCoef := square / QuadCoeffDiv
      let newTotalFee := (linCoef + quadCoef) % 2 ^ 64
      let fee := (newTotalFee + 2 ^ 64 - mem.lastGasCost % 2 ^ 64) % 2 ^ 64
      .ok (fee, { mem with lastGasCost := newTotalFee })
    else .ok (0, mem)

/-! ## Conversions and sizes -/

theorem Uint64_of_lt {x : Nat} (h : x < 2 ^ 64) : Uint64 x = x := Nat.mod_eq_of_lt h

theorem Int64_of_lt {x : Nat} (h : x < 2 ^ 63) : Int64 x = x := by
  have hx : x % 2 ^ 64 = x := Nat.mod_eq_of_lt (by omega)
  simp only [Int64, hx, if_pos h]

theorem toWordSize_of_le {size : Nat} (h : size ≤ 2 ^ 64 - 1 - 31) :
    toWordSize size = (size + 31) / 32 := by
  simp only [toWordSize, gt_iff_lt, not_lt.mpr h, if_false]

/-- An access that `calcMemSize64WithUint` reports without overflow is empty,
or ends at `off + length64` below `2^64`. -/
theorem calcMemSize64WithUint_eq {off length64 n : Nat} (hl : length64 < 2 ^ 64)
    (h : calcMemSize64WithUint off length64 = (n, false)) :
    length64 = 0 ∧ n = 0 ∨ n = off + length64 ∧ n < 2 ^ 64 := by
  unfold calcMemSize64WithUint at h
  split_ifs at h with h0 hoff
  · exact .inl ⟨h0, (Prod.mk.inj h).1.symm⟩
  · simp at h
  · simp only [IsUint64, Bool.not_eq_true', decide_eq_false_iff_not, not_not] at hoff
    obtain ⟨hn, hwrap⟩ := Prod.mk.inj h
    simp only [decide_eq_false_iff_not] at hwrap
    right
    omega

theorem calcMemSize64_eq {off l n : Nat} (h : calcMemSize64 off l = (n, false)) :
    l = 0 ∧ n = 0 ∨ n = off + l ∧ n < 2 ^ 64 := by
  unfold calcMemSize64 at h
  split_ifs at h with hl
  · simp at h
  · simp only [IsUint64, Bool.not_eq_true', decide_eq_false_iff_not, not_not] at hl
    rw [Uint64_of_lt hl] at h
    exact calcMemSize64WithUint_eq hl h

/-- `getDataBig` reads within its source, whatever the offset and size. -/
theorem getDataBig_isSome (data : List UInt8) (start size : Nat) (hd : data.length < 2 ^ 64) :
    (getDataBig data start size).isSome := by
  have hs : min start data.length < 2 ^ 64 := by omega
  have he : min (min start data.length + size) data.length < 2 ^ 64 := by omega
  simp only [getDataBig, Option.isSome_map, Uint64_of_lt hs, Uint64_of_lt he]
  rw [GoSlice.get_isSome_iff]
  omega

namespace Memory

@[simp] theorem Len_Resize (m : Memory) (size : Nat) : (m.Resize size).Len = max m.Len size := by
  unfold Resize
  split_ifs with h
  · simp only [Len, GoSlice.length_grow]
    omega
  · simp only [Len] at h ⊢
    omega

@[simp] theorem lastGasCost_Resize (m : Memory) (size : Nat) :
    (m.Resize size).lastGasCost = m.lastGasCost := by
  unfold Resize
  split_ifs <;> rfl

/-! ## Accesses within the memory

An access of `size` bytes at `off` is safe when it is empty or ends within
the memory, and the memory is shorter than the `int64` bound the conversions
need. Writes keep the length and the cost paid. -/

section
variable {m : Memory} {off size : Nat}

theorem Get_isSome (h : size = 0 ∨ off + size ≤ m.Len) (hm : m.Len < 2 ^ 63) :
    (m.Get (Int64 off) (Int64 size)).isSome := by
  rcases Nat.eq_zero_or_pos size with rfl | hpos
  · simp [Get, Int64]
  · have hend : off + size ≤ m.Len := h.resolve_left (by omega)
    rw [Int64_of_lt (x := off) (by omega), Int64_of_lt (x := size) (by omega)]
    unfold Get
    split_ifs with h0 hlt hneg
    · rfl
    · omega
    · rw [GoSlice.get_isSome_iff]
      simp only [Len] at hend
      omega
    · rfl

theorem GetPtr_isSome (h : size = 0 ∨ off + size ≤ m.Len) (hm : m.Len < 2 ^ 63) :
    (m.GetPtr (Int64 off) (Int64 size)).isSome := by
  rcases Nat.eq_zero_or_pos size with rfl | hpos
  · simp [GetPtr, Int64]
  · have hend : off + size ≤ m.Len := h.resolve_left (by omega)
    rw [Int64_of_lt (x := off) (by omega), Int64_of_lt (x := size) (by omega)]
    unfold GetPtr
    split_ifs with h0 hlt
    · rfl
    · rw [GoSlice.get_isSome_iff]
      simp only [Len] at hend
      omega
    · rfl

/-- The write of `copy(m.store[off:off+size], value)` at an offset within
the memory keeps its length. -/
theorem write_store {value : List UInt8} (hend : off + size ≤ m.Len) :
    (GoSlice.write m.store off (value.take ((m.store.drop off).take size).length)).length =
      m.store.length := by
  apply GoSlice.length_write
  simp only [List.length_take, List.length_drop]
  simp only [Len] at hend
  omega

theorem Set_eq (h : size = 0 ∨ off + size ≤ m.Len) (hm : m.Len < 2 ^ 64) (value : List UInt8) :
    ∃ m', m.Set (Uint64 off) (Uint64 size) value = some m' ∧ m'.Len = m.Len ∧
      m'.lastGasCost = m.lastGasCost := by
  rcases Nat.eq_zero_or_pos size with rfl | hpos
  · exact ⟨m, by simp [Set, Uint64], rfl, rfl⟩
  · have hend : off + size ≤ m.Len := h.resolve_left (by omega)
    have hhi : (off + size) % 2 ^ 64 = off + size := Nat.mod_eq_of_lt (by omega)
    rw [Uint64_of_lt (x := off) (by omega), Uint64_of_lt (x := size) (by omega)]
    refine ⟨{ m with
      store := GoSlice.write m.store off (value.take ((m.store.drop off).take size).length) },
      ?_, write_store hend, rfl⟩
    simp only [Set, gt_iff_lt, hpos, if_true, hhi, not_lt.mpr hend, if_false]
    rw [GoSlice.get_of_le (by omega) hend]
    simp

theorem Set32_eq (hend : off + 32 ≤ m.Len) (hm : m.Len < 2 ^ 64) (val : Nat) :
    ∃ m', m.Set32 (Uint64 off) val = some m' ∧ m'.Len = m.Len ∧
      m'.lastGasCost = m.lastGasCost := by
  have hhi : (off + 32) % 2 ^ 64 = off + 32 := Nat.mod_eq_of_lt (by omega)
  rw [Uint64_of_lt (x := off) (by omega)]
  refine ⟨{ m with store := GoSlice.write m.store off (wordBytes val) }, ?_, ?_, rfl⟩
  · simp only [Set32, gt_iff_lt, hhi, not_lt.mpr hend, if_false]
    rw [GoSlice.get_of_le (by omega) hend]
    rfl
  · simp only [Len] at hend ⊢
    exact GoSlice.length_write (by simp only [length_wordBytes]; omega)

theorem setByte_eq (hend : off < m.Len) (hm : m.Len < 2 ^ 63) (b : UInt8) :
    ∃ m', m.setByte (Int64 off) b = some m' ∧ m'.Len = m.Len ∧
      m'.lastGasCost = m.lastGasCost := by
  rw [Int64_of_lt (x := off) (by omega)]
  have hin : (0 : Int) ≤ off ∧ (off : Int) < m.Len := by omega
  refine ⟨{ m with store := m.store.set off b }, ?_, by simp [Len], rfl⟩
  simp only [setByte, hin, and_self, if_true, Int.toNat_natCast]

end

end Memory

/-! ## The cost paid

`memoryGasCost` charges the cost of the new size over `lastGasCost`, the cost
it recorded last. That is the cost of the expansion when the memory holds
whole words and `lastGasCost` is what they cost: `Memory.Paid`, which `Run`
keeps by growing the memory to the word-rounded size it charged for. -/

/-- The memory holds whole words, and the cost recorded is the cost of them. -/
structure Memory.Paid (m : Memory) : Prop where
  words : m.Len % 32 = 0
  cost : m.lastGasCost = memoryCost (m.Len / 32)

theorem NewMemory_paid : NewMemory.Paid := ⟨rfl, rfl⟩

/-- `Paid` reads only the length and the cost recorded. -/
theorem Memory.Paid.keep {m m' : Memory} (hm : m.Paid) (hlen : m'.Len = m.Len)
    (hcost : m'.lastGasCost = m.lastGasCost) : m'.Paid :=
  ⟨hlen ▸ hm.words, by rw [hcost, hlen]; exact hm.cost⟩

@[simp] theorem Memory.Resize_zero (m : Memory) : m.Resize 0 = m := by
  simp [Memory.Resize]

theorem memoryCost_mono {v w : Nat} (h : v ≤ w) : memoryCost v ≤ memoryCost w := by
  unfold memoryCost
  gcongr

/-- The words of a size up to `0x1FFFFFFFE0` fit 32 bits, so their square and
their cost fit a `uint64`. -/
theorem memoryCost_lt {w : Nat} (hw : w ≤ 0xFFFFFFFF) :
    w * w < 2 ^ 64 ∧ memoryCost w < 2 ^ 64 := by
  have hsq : w * w ≤ 0xFFFFFFFF * 0xFFFFFFFF := Nat.mul_le_mul hw hw
  unfold memoryCost MemoryGas QuadCoeffDiv
  omega

section
variable {mem : Memory} {size : Nat}

theorem memoryGasCost_overflow (h : 0x1FFFFFFFE0 < size) :
    memoryGasCost mem size = .error .errGasUintOverflow := by
  unfold memoryGasCost
  rw [if_neg (by omega), if_pos h]

/-- `memoryGasCost` records the new cost and leaves the bytes; it refuses a
size past `0x1FFFFFFFE0`. -/
theorem memoryGasCost_ok {mem' : Memory} {cost : Nat}
    (h : memoryGasCost mem size = .ok (cost, mem')) :
    mem'.Len = mem.Len ∧ size ≤ 0x1FFFFFFFE0 := by
  unfold memoryGasCost at h
  dsimp only at h
  -- the refusal ends in `.error`; every other branch keeps the bytes
  split_ifs at h <;> cases h <;> exact ⟨rfl, by omega⟩

/-- On a paid memory, `memoryGasCost` charges the cost of the words of the
larger of the size and the memory over the cost already paid, and records it.
Its `uint64` products and sums do not wrap below `0x1FFFFFFFE0`. -/
theorem memoryGasCost_eq (hm : mem.Paid) (hlen : mem.Len ≤ 0x1FFFFFFFE0)
    (hs : size ≤ 0x1FFFFFFFE0) :
    memoryGasCost mem size =
      .ok (memoryCost (toWordSize (max size mem.Len)) - memoryCost (mem.Len / 32),
        { mem with lastGasCost := memoryCost (toWordSize (max size mem.Len)) }) := by
  obtain ⟨hwords, hcost⟩ := hm
  have hmax : toWordSize (max size mem.Len) = (max size mem.Len + 31) / 32 :=
    toWordSize_of_le (by omega)
  have hw : toWordSize size = (size + 31) / 32 := toWordSize_of_le (by omega)
  unfold memoryGasCost
  dsimp only
  split_ifs with h0 hbig hgt
  · -- no size: the memory is its own words
    rw [hmax, h0, show (max 0 mem.Len + 31) / 32 = mem.Len / 32 by omega, Nat.sub_self, ← hcost]
  · omega
  · -- the memory grows to the words of `size`, whose cost fits a `uint64`
    rw [hw] at hgt ⊢
    have hW : (max size mem.Len + 31) / 32 = (size + 31) / 32 := by omega
    rw [hmax, hW]
    obtain ⟨hsq, hlt⟩ := memoryCost_lt (w := (size + 31) / 32) (by omega)
    have hmono := memoryCost_mono (show mem.Len / 32 ≤ (size + 31) / 32 by omega)
    have htotal : ((size + 31) / 32 * MemoryGas % 2 ^ 64 +
        (size + 31) / 32 * ((size + 31) / 32) % 2 ^ 64 / QuadCoeffDiv) % 2 ^ 64 =
        memoryCost ((size + 31) / 32) := by
      unfold memoryCost MemoryGas QuadCoeffDiv at hlt ⊢
      omega
    rw [htotal, hcost]
    congr 2
    omega
  · -- the memory already holds the words of `size`
    rw [hw] at hgt
    rw [hmax, show (max size mem.Len + 31) / 32 = mem.Len / 32 by omega, Nat.sub_self, ← hcost]

/-- The memory `memoryGasCost` leaves for a word-rounded size, grown to that
size as `Run` grows it, is paid for again. -/
theorem memoryGasCost_paid {mem' : Memory} {fee : Nat} (hm : mem.Paid)
    (hlen : mem.Len ≤ 0x1FFFFFFFE0) (hs : size % 32 = 0)
    (h : memoryGasCost mem size = .ok (fee, mem')) : (mem'.Resize size).Paid := by
  have hle := (memoryGasCost_ok h).2
  rw [memoryGasCost_eq hm hlen hle] at h
  obtain ⟨-, rfl⟩ := Prod.mk.inj (Except.ok.inj h)
  have hmax : toWordSize (max size mem.Len) = (max size mem.Len + 31) / 32 :=
    toWordSize_of_le (by omega)
  have hLen : ({ mem with lastGasCost := memoryCost (toWordSize (max size mem.Len)) } : Memory).Len
      = mem.Len := rfl
  have hwords := hm.words
  constructor
  · rw [Memory.Len_Resize, hLen]
    omega
  · rw [Memory.Len_Resize, hLen, Memory.lastGasCost_Resize, hmax]
    dsimp only
    congr 1
    omega

end

end Btp.Vm
