import Mathlib
import Btp.Lib.ByteBits
import Btp.Vm.Memory
import Btp.Vm.Contract

/-!
# The MODEXP precompile

`bigModExp` of `core/vm/contracts.go`, with `getData` of `core/vm/common.go`.
`RequiredGas` reads the three 256-bit length words of its input as `big.Int`s
and prices the call; `Run` reads them again through `Uint64()`, cuts the
operands out with `getData` and exponentiates.

Byte strings are lists of bytes. `big.Int.SetBytes` is `ByteBits.ofBytesBE`,
`big.Int.Bytes` is `ByteBits.toBytesBE`, `big.Int.Exp` with a positive modulus
is `b ^ e % m`, and `params.ModExpQuadCoeffDiv` and `common.LeftPadBytes`,
which are not under `src/`, are given by their specification. A slice
expression out of range panics: `none`.

EIP-198, stated on its own (`eip198Gas`, `eip198Output`), reads the input as
if zeros followed it. `RequiredGas` is EIP-198's price on unbounded integers,
capped at `2^64 - 1`; within a price of `2^32` the lengths are small, so that
their truncation to `uint64` and the slice bounds of `getData` are exact, and
`Run` returns EIP-198's output (`bigModExp_meets_eip198`).
-/

namespace Btp.Vm

open ByteBits

/-- `params.ModExpQuadCoeffDiv`. -/
def ModExpQuadCoeffDiv : Nat := 20

/-- `common.LeftPadBytes`: zeros in front, up to length `l`. -/
def LeftPadBytes (slice : List UInt8) (l : Int) : List UInt8 :=
  if l ≤ slice.length then slice else List.replicate (l.toNat - slice.length) 0 ++ slice

/-- `getData`: `size` bytes of `data` from `start`, padded with zeros. The
`uint64` end wraps, and `int(size)` is negative from `2^63` on. -/
def getData (data : List UInt8) (start size : Nat) : Option (List UInt8) :=
  let length := data.length
  let start := if start > length then length else start
  let endIdx := (start + size) % 2 ^ 64
  let endIdx := if endIdx > length then length else endIdx
  (GoSlice.get data start endIdx).map fun d => RightPadBytes d (Int64 size)

/-- The price of the multiplications, by the larger of the base and modulus
lengths: the `switch` of `RequiredGas`. -/
def multComplexity (x : Int) : Int :=
  if x ≤ 64 then x * x
  else if x ≤ 1024 then x * x / 4 + (96 * x - 3072)
  else x * x / 16 + (480 * x - 199680)

/-- The head 32 bytes of exp for the adjusted exponent length, as
`RequiredGas` retrieves them from the operands `input`. -/
def expHeadOf (input : List UInt8) (baseLen expLen : Nat) : Option Nat :=
  if input.length ≤ baseLen then pure 0
  else if expLen > 32 then ofBytesBE <$> getData input (Uint64 baseLen) 32
  else ofBytesBE <$> getData input (Uint64 baseLen) (Uint64 expLen)

/-- The gas cost `RequiredGas` computes from the three lengths and the
exponent head. -/
def modExpGas (baseLen expLen modLen expHead : Nat) : Nat :=
  -- Calculate the adjusted exponent length
  let msb := if bitLen expHead > 0 then bitLen expHead - 1 else 0
  let adjExpLen : Int := (if expLen > 32 then 8 * ((expLen : Int) - 32) else 0) + msb
  -- Calculate the gas cost of the operation
  let gas := multComplexity (max modLen baseLen) * max adjExpLen 1 / ModExpQuadCoeffDiv
  if bitLen gas.natAbs > 64 then 2 ^ 64 - 1 else Uint64 gas.natAbs

/-- `bigModExp.RequiredGas`. -/
def RequiredGas (input : List UInt8) : Option Nat := do
  let baseLen := ofBytesBE (← getData input 0 32)
  let expLen := ofBytesBE (← getData input 32 32)
  let modLen := ofBytesBE (← getData input 64 32)
  let input := if input.length > 96 then input.drop 96 else []
  let expHead ← expHeadOf input baseLen expLen
  return modExpGas baseLen expLen modLen expHead

/-- `bigModExp.Run`, whose error is always `nil`. -/
def Run (input : List UInt8) : Option (List UInt8) := do
  let baseLen := Uint64 (ofBytesBE (← getData input 0 32))
  let expLen := Uint64 (ofBytesBE (← getData input 32 32))
  let modLen := Uint64 (ofBytesBE (← getData input 64 32))
  let input := if input.length > 96 then input.drop 96 else []
  -- Handle a special case when both the base and mod length is zero
  if baseLen = 0 ∧ modLen = 0 then return []
  -- Retrieve the operands and execute the exponentiation
  let base := ofBytesBE (← getData input 0 baseLen)
  let exp := ofBytesBE (← getData input baseLen expLen)
  let mod := ofBytesBE (← getData input ((baseLen + expLen) % 2 ^ 64) modLen)
  if bitLen mod = 0 then
    -- Modulo 0 is undefined, return zero
    return LeftPadBytes [] (Int64 modLen)
  return LeftPadBytes (toBytesBE (base ^ exp % mod)) (Int64 modLen)

/-! ## EIP-198 -/

/-- `n` bytes of `input` from `i`, zeros past its end. -/
def readBytes (input : List UInt8) (i n : Nat) : List UInt8 :=
  (List.range n).map fun j => input.getD (i + j) 0

/-- EIP-198's `mult_complexity`. -/
def eip198Mult (x : Nat) : Nat :=
  if x ≤ 64 then x ^ 2
  else if x ≤ 1024 then x ^ 2 / 4 + 96 * x - 3072
  else x ^ 2 / 16 + 480 * x - 199680

/-- EIP-198's price for lengths `B`, `E`, `M` and an exponent whose first
`min E 32` bytes are `head`, capped at `2^64 - 1`. -/
def eip198Price (B E M head : Nat) : Nat :=
  let adjExpLen := (bitLen head - 1) + (if E > 32 then 8 * (E - 32) else 0)
  min (eip198Mult (max B M) * max adjExpLen 1 / ModExpQuadCoeffDiv) (2 ^ 64 - 1)

/-- The base, exponent and modulus lengths `B`, `E`, `M` of an input. -/
def lengthsOf (input : List UInt8) : Nat × Nat × Nat :=
  (ofBytesBE (readBytes input 0 32), ofBytesBE (readBytes input 32 32), ofBytesBE (readBytes input 64 32))

/-- EIP-198's price of an input. -/
def eip198Gas (input : List UInt8) : Nat :=
  let (B, E, M) := lengthsOf input
  eip198Price B E M (ofBytesBE (readBytes input (96 + B) (min E 32)))

/-- EIP-198's output: nothing for empty base and modulus, `M` zero bytes for
a zero modulus, and `b ^ e mod m` in `M` bytes otherwise. -/
def eip198Output (input : List UInt8) : List UInt8 :=
  let (B, E, M) := lengthsOf input
  if B = 0 ∧ M = 0 then []
  else
    let b := ofBytesBE (readBytes input 96 B)
    let e := ofBytesBE (readBytes input (96 + B) E)
    let m := ofBytesBE (readBytes input (96 + B + E) M)
    if m = 0 then List.replicate M 0
    else List.replicate (M - (toBytesBE (b ^ e % m)).length) 0 ++ toBytesBE (b ^ e % m)

/-! ## Reads and pads -/

@[simp] theorem length_readBytes (input : List UInt8) (i n : Nat) : (readBytes input i n).length = n := by
  simp [readBytes]

/-- A read is the slice of the input it covers, then zeros. -/
theorem readBytes_eq_take (data : List UInt8) (start size : Nat) :
    readBytes data start size =
      (data.drop start).take size ++ List.replicate (size - ((data.drop start).take size).length) 0 := by
  apply List.ext_getElem
  · simp only [length_readBytes, List.length_append, List.length_replicate, List.length_take,
      List.length_drop]
    omega
  · intro j hj _
    rw [List.getElem_append]
    simp only [readBytes, List.getElem_map, List.getElem_range, List.getD_eq_getElem?_getD]
    split
    · next hlt =>
      have hlt' : start + j < data.length := by
        simp only [List.length_take, List.length_drop] at hlt
        omega
      simp [List.getElem?_eq_getElem hlt']
    · next hlt =>
      simp only [List.length_take, List.length_drop, length_readBytes] at hlt hj
      rw [List.getElem_replicate, List.getElem?_eq_none (by omega), Option.getD_none]

theorem readBytes_drop (data : List UInt8) (k i n : Nat) :
    readBytes (data.drop k) i n = readBytes data (k + i) n := by
  simp only [readBytes, List.getD_eq_getElem?_getD, List.getElem?_drop, Nat.add_assoc]

theorem readBytes_of_length_le {data : List UInt8} {i : Nat} (n : Nat) (h : data.length ≤ i) :
    readBytes data i n = List.replicate n 0 := by
  have hzero : ∀ j, data.getD (i + j) 0 = 0 := fun j => List.getD_eq_default _ _ (by omega)
  simp only [readBytes, hzero, List.map_const', List.length_range]

theorem ofBytesBE_readBytes_lt (data : List UInt8) (i n : Nat) : ofBytesBE (readBytes data i n) < 2 ^ (8 * n) := by
  simpa using ofBytesBE_lt (readBytes data i n)

/-- `input[96:]`, or `input[:0]` for a short input, is the input past its
first 96 bytes. -/
theorem operands_eq (input : List UInt8) :
    (if input.length > 96 then input.drop 96 else []) = input.drop 96 := by
  split_ifs with h
  · rfl
  · rw [List.drop_of_length_le (by omega)]

theorem RightPadBytes_natCast (slice : List UInt8) (l : Nat) :
    RightPadBytes slice l = slice ++ List.replicate (l - slice.length) 0 := by
  unfold RightPadBytes
  split_ifs with h
  · rw [Nat.sub_eq_zero_of_le (by omega), List.replicate_zero, List.append_nil]
  · simp

theorem LeftPadBytes_natCast (slice : List UInt8) (l : Nat) :
    LeftPadBytes slice l = List.replicate (l - slice.length) 0 ++ slice := by
  unfold LeftPadBytes
  split_ifs with h
  · rw [Nat.sub_eq_zero_of_le (by omega), List.replicate_zero, List.nil_append]
  · simp

/-- **`getData`.** Where the end cannot wrap and the size is a positive
`int`, `getData` reads the bytes from `start`, zeros past the end. -/
theorem getData_eq {data : List UInt8} {start size : Nat} (h : start + size < 2 ^ 63) :
    getData data start size = some (readBytes data start size) := by
  have hsize : Int64 size = size := Int64_of_lt (by omega)
  by_cases hst : start > data.length
  · -- the start is clamped to the end: nothing is read, all is padding
    have hwrap : (data.length + size) % 2 ^ 64 = data.length + size := Nat.mod_eq_of_lt (by omega)
    have hend : (if data.length + size > data.length then data.length else data.length + size) =
        data.length := by split_ifs <;> omega
    simp only [getData, if_pos hst, hwrap, hend, GoSlice.get_of_le le_rfl le_rfl, Nat.sub_self,
      List.take_zero, Option.map_some, hsize, RightPadBytes_natCast, List.nil_append,
      List.length_nil, Nat.sub_zero, readBytes_of_length_le size hst.le]
  · have hwrap : (start + size) % 2 ^ 64 = start + size := Nat.mod_eq_of_lt (by omega)
    simp only [getData, if_neg hst, hwrap, hsize]
    split_ifs with hend
    · -- the slice stops at the end of the data
      rw [GoSlice.get_of_le (by omega) le_rfl, Option.map_some, RightPadBytes_natCast,
        readBytes_eq_take, List.take_of_length_le (l := data.drop start) (by simp),
        List.take_of_length_le (by simp; omega)]
    · rw [GoSlice.get_of_le (by omega) (by omega), Option.map_some, RightPadBytes_natCast,
        readBytes_eq_take, Nat.add_sub_cancel_left]

/-! ## The price -/

theorem multComplexity_natCast (x : Nat) : multComplexity x = eip198Mult x := by
  unfold multComplexity eip198Mult
  by_cases h64 : x ≤ 64
  · rw [if_pos (by exact_mod_cast h64), if_pos h64]
    push_cast
    ring
  · by_cases h1024 : x ≤ 1024
    · rw [if_neg (by exact_mod_cast h64), if_pos (by exact_mod_cast h1024), if_neg h64, if_pos h1024]
      rw [Nat.cast_sub (by omega)]
      push_cast
      rw [sq]
      ring
    · rw [if_neg (by exact_mod_cast h64), if_neg (by exact_mod_cast h1024), if_neg h64, if_neg h1024]
      rw [Nat.cast_sub (by omega)]
      push_cast
      rw [sq]
      ring

theorem bitLen_le_iff (n k : Nat) : bitLen n ≤ k ↔ n < 2 ^ k := by
  unfold bitLen
  split
  · next h => exact ⟨fun _ => h ▸ Nat.two_pow_pos k, fun _ => Nat.zero_le k⟩
  · next h =>
    rw [Nat.add_one_le_iff, Nat.log2_lt h]

/-- The arithmetic of `RequiredGas` after the exponent head is EIP-198's price. -/
theorem modExpGas_eq (B E M head : Nat) : modExpGas B E M head = eip198Price B E M head := by
  unfold modExpGas
  dsimp only
  -- the adjusted exponent length is a natural number
  have hadj : (if E > 32 then 8 * ((E : Int) - 32) else 0) +
      ((if bitLen head > 0 then bitLen head - 1 else 0 : Nat) : Int) =
      (((bitLen head - 1) + (if E > 32 then 8 * (E - 32) else 0) : Nat) : Int) := by
    split_ifs <;> push_cast [Nat.cast_sub, *] <;> omega
  have hgas : multComplexity (max M B) * max ((((bitLen head - 1) + (if E > 32 then 8 * (E - 32) else 0) : Nat) : Int)) 1 /
      ModExpQuadCoeffDiv =
      ((eip198Mult (max B M) * max ((bitLen head - 1) + (if E > 32 then 8 * (E - 32) else 0)) 1 /
        ModExpQuadCoeffDiv : Nat) : Int) := by
    rw [show max (M : Int) (B : Int) = ((max B M : Nat) : Int) by push_cast; exact max_comm _ _,
      multComplexity_natCast]
    push_cast
    rfl
  rw [hadj, hgas, Int.natAbs_natCast]
  unfold eip198Price
  dsimp only
  generalize eip198Mult (max B M) * max (bitLen head - 1 + if E > 32 then 8 * (E - 32) else 0) 1 /
    ModExpQuadCoeffDiv = g
  -- the cap: more than 64 bits is `2^64 - 1`, and below `2^64` the cast is exact
  by_cases hbig : bitLen g > 64
  · rw [if_pos hbig]
    have := (bitLen_le_iff g 64).not.1 (by omega)
    omega
  · rw [if_neg hbig]
    have hlt := (bitLen_le_iff g 64).1 (by omega)
    rw [Uint64, Nat.mod_eq_of_lt hlt]
    omega

/-! ## `RequiredGas` is EIP-198's price -/

/-- The length words are read whole, whatever the input's length. -/
theorem getData_lengthWord (input : List UInt8) {k : Nat} (hk : k ≤ 64) :
    getData input k 32 = some (readBytes input k 32) :=
  getData_eq (by omega)

theorem lengthsOf_eq {input : List UInt8} {B E M : Nat} (hl : lengthsOf input = (B, E, M)) :
    ofBytesBE (readBytes input 0 32) = B ∧ ofBytesBE (readBytes input 32 32) = E ∧
      ofBytesBE (readBytes input 64 32) = M := by
  simpa [lengthsOf] using hl

theorem RequiredGas_eq_map {input : List UInt8} {B E M : Nat} (hl : lengthsOf input = (B, E, M)) :
    RequiredGas input = (expHeadOf (input.drop 96) B E).map (modExpGas B E M) := by
  obtain ⟨rfl, rfl, rfl⟩ := lengthsOf_eq hl
  simp only [RequiredGas, getData_lengthWord input (Nat.zero_le 64), getData_lengthWord input
    (show 32 ≤ 64 by omega), getData_lengthWord input le_rfl, operands_eq, Option.bind_eq_bind,
    Option.bind_some, Option.map_eq_bind]
  rfl

/-- Past a short operand string the exponent head is zero; otherwise the
`uint64` offsets are exact, within the length of a Go slice. -/
theorem expHeadOf_eq {input : List UInt8} (hlen : input.length < 2 ^ 63) (B E : Nat) :
    expHeadOf (input.drop 96) B E = some (ofBytesBE (readBytes input (96 + B) (min E 32))) := by
  unfold expHeadOf
  by_cases hshort : (input.drop 96).length ≤ B
  · rw [if_pos hshort, List.length_drop] at *
    rw [readBytes_of_length_le _ (by omega), ← List.append_nil (List.replicate _ 0),
      ofBytesBE_replicate_zero_append, ofBytesBE_nil]
    rfl
  · rw [if_neg hshort]
    rw [List.length_drop] at hshort
    rw [Uint64_of_lt (by omega)]
    by_cases hE : E > 32
    · rw [if_pos hE, getData_eq (by omega), readBytes_drop, Nat.min_eq_right (by omega)]
      rfl
    · rw [if_neg hE, Uint64_of_lt (by omega), getData_eq (by omega), readBytes_drop,
        Nat.min_eq_left (by omega)]
      rfl

/-- **The price.** On an input of a Go slice's length, `RequiredGas` is
EIP-198's price. -/
theorem RequiredGas_eq_eip198Gas {input : List UInt8} (hlen : input.length < 2 ^ 63) :
    RequiredGas input = some (eip198Gas input) := by
  rcases hl : lengthsOf input with ⟨B, E, M⟩
  rw [RequiredGas_eq_map hl, expHeadOf_eq hlen, Option.map_some, modExpGas_eq, eip198Gas, hl]

/-! ## Small prices bound the lengths -/

theorem sq_div_le_eip198Mult (x : Nat) : x ^ 2 / 16 ≤ eip198Mult x := by
  unfold eip198Mult
  split_ifs <;> omega

theorem one_le_eip198Mult {x : Nat} (hx : 0 < x) : 1 ≤ eip198Mult x := by
  unfold eip198Mult
  have : 1 ≤ x ^ 2 := Nat.one_le_pow _ _ hx
  split_ifs <;> omega

/-- **Small prices, small lengths.** At a price of at most `2^32`, base and
modulus are both empty, or base and modulus lengths are below `2^21` and the
exponent length below `2^35`. -/
theorem eip198Price_small {B E M head : Nat} (h : eip198Price B E M head ≤ 2 ^ 32) :
    (B = 0 ∧ M = 0) ∨ (B < 2 ^ 21 ∧ M < 2 ^ 21 ∧ E < 2 ^ 35) := by
  unfold eip198Price ModExpQuadCoeffDiv at h
  dsimp only at h
  by_cases hx : max B M = 0
  · exact .inl ⟨by omega, by omega⟩
  -- both factors of the price are positive, so each is below `20 * (2^32 + 1)`
  have hmult := one_le_eip198Mult (Nat.pos_of_ne_zero hx)
  have hprod : eip198Mult (max B M) * max (bitLen head - 1 + if E > 32 then 8 * (E - 32) else 0) 1 <
      2 ^ 37 := by
    generalize eip198Mult (max B M) * max (bitLen head - 1 + if E > 32 then 8 * (E - 32) else 0) 1 = P at h
    omega
  have hadj : max (bitLen head - 1 + if E > 32 then 8 * (E - 32) else 0) 1 < 2 ^ 37 :=
    lt_of_le_of_lt (Nat.le_mul_of_pos_left _ hmult) hprod
  have hmult' : eip198Mult (max B M) < 2 ^ 37 :=
    lt_of_le_of_lt (Nat.le_mul_of_pos_right _ (lt_of_lt_of_le Nat.one_pos (le_max_right _ _))) hprod
  -- the larger length's square is below `2^42`
  have hsq : max B M < 2 ^ 21 := by
    by_contra hge
    have hpow : (2 ^ 21) ^ 2 ≤ (max B M) ^ 2 := Nat.pow_le_pow_left (by omega) 2
    have := sq_div_le_eip198Mult (max B M)
    omega
  have hE : E < 2 ^ 35 := by
    split_ifs at hadj with hE32 <;> omega
  exact .inr ⟨by omega, by omega, hE⟩

/-- Within the price, a `RequiredGas` result bounds the lengths. -/
theorem RequiredGas_small {input : List UInt8} {B E M g : Nat} (hl : lengthsOf input = (B, E, M))
    (hg : RequiredGas input = some g) (hle : g ≤ 2 ^ 32) :
    (B = 0 ∧ M = 0) ∨ (B < 2 ^ 21 ∧ M < 2 ^ 21 ∧ E < 2 ^ 35) := by
  rw [RequiredGas_eq_map hl] at hg
  obtain ⟨head, -, rfl⟩ := Option.map_eq_some_iff.1 hg
  rw [modExpGas_eq] at hle
  exact eip198Price_small hle

/-! ## `Run` returns EIP-198's output -/

theorem bitLen_eq_zero_iff (n : Nat) : bitLen n = 0 ↔ n = 0 := by
  unfold bitLen
  split_ifs with h <;> simp [h]

/-- **`Run`.** With base and modulus empty, or lengths as small as a price of
`2^32` leaves them, the truncated lengths are the lengths, no slice bound
wraps, and `Run` returns EIP-198's output. -/
theorem Run_eq_eip198Output {input : List UInt8} {B E M : Nat} (hl : lengthsOf input = (B, E, M))
    (hsmall : (B = 0 ∧ M = 0) ∨ (B < 2 ^ 21 ∧ M < 2 ^ 21 ∧ E < 2 ^ 35)) :
    Run input = some (eip198Output input) := by
  obtain ⟨hB, hE, hM⟩ := lengthsOf_eq hl
  simp only [Run, getData_lengthWord input (Nat.zero_le 64), getData_lengthWord input
    (show 32 ≤ 64 by omega), getData_lengthWord input le_rfl, hB, hE, hM, operands_eq,
    Option.bind_eq_bind, Option.bind_some]
  unfold eip198Output
  rw [hl]
  dsimp only
  rcases hsmall with ⟨rfl, rfl⟩ | ⟨hB', hM', hE'⟩
  · rfl
  rw [Uint64_of_lt (by omega), Uint64_of_lt (by omega), Uint64_of_lt (by omega)]
  by_cases hz : B = 0 ∧ M = 0
  · rw [if_pos hz, if_pos hz]
    rfl
  -- the operands: base, exponent and modulus, read from their offsets
  rw [if_neg hz, if_neg hz, getData_eq (by omega), Option.bind_some, getData_eq (by omega),
    Option.bind_some, Nat.mod_eq_of_lt (by omega), getData_eq (by omega), Option.bind_some,
    readBytes_drop, readBytes_drop, readBytes_drop, Nat.add_zero, Int64_of_lt (by omega),
    ← Nat.add_assoc]
  simp only [bitLen_eq_zero_iff]
  split_ifs with hm
  · rw [LeftPadBytes_natCast, List.length_nil, Nat.sub_zero, List.append_nil]
    rfl
  · rw [LeftPadBytes_natCast]
    rfl

/-- EIP-198's output in the words of its text: nothing for empty base and
modulus, `M` zero bytes for a zero modulus, else `b ^ e mod m` in exactly
`M` bytes. -/
theorem eip198Output_cases {input : List UInt8} {B E M : Nat} (hl : lengthsOf input = (B, E, M)) :
    let m := ofBytesBE (readBytes input (96 + B + E) M)
    (B = 0 ∧ M = 0 → eip198Output input = []) ∧
    (¬(B = 0 ∧ M = 0) → m = 0 → eip198Output input = List.replicate M 0) ∧
    (¬(B = 0 ∧ M = 0) → m ≠ 0 → (eip198Output input).length = M ∧
      ofBytesBE (eip198Output input) =
        ofBytesBE (readBytes input 96 B) ^ ofBytesBE (readBytes input (96 + B) E) % m) := by
  unfold eip198Output
  rw [hl]
  dsimp only
  refine ⟨fun hz => if_pos hz, fun hz hm => by rw [if_neg hz, if_pos hm], fun hz hm => ?_⟩
  rw [if_neg hz, if_neg hm]
  -- the residue is below the modulus, which `M` bytes hold
  have hlt : ofBytesBE (readBytes input 96 B) ^ ofBytesBE (readBytes input (96 + B) E) %
      ofBytesBE (readBytes input (96 + B + E) M) < 2 ^ (8 * M) :=
    lt_trans (Nat.mod_lt _ (Nat.pos_of_ne_zero hm)) (ofBytesBE_readBytes_lt _ _ _)
  have hlen := length_toBytesBE_le hlt
  refine ⟨by simp only [List.length_append, List.length_replicate]; omega, ?_⟩
  rw [ofBytesBE_replicate_zero_append, ofBytesBE_toBytesBE]

/-- **MODEXP meets EIP-198.** On every input of a Go slice's length,
`RequiredGas` is EIP-198's price; on every input it prices at most `2^32`,
`Run` does not panic and returns EIP-198's output: nothing for empty base and
modulus, `M` zero bytes for a zero modulus, and `b ^ e mod m` in exactly `M`
bytes otherwise. -/
theorem bigModExp_meets_eip198 (input : List UInt8) :
    (input.length < 2 ^ 63 → RequiredGas input = some (eip198Gas input)) ∧
    ∀ g, RequiredGas input = some g → g ≤ 2 ^ 32 →
      Run input = some (eip198Output input) ∧
      ∀ B E M, lengthsOf input = (B, E, M) →
        let m := ofBytesBE (readBytes input (96 + B + E) M)
        (B = 0 ∧ M = 0 → eip198Output input = []) ∧
        (¬(B = 0 ∧ M = 0) → m = 0 → eip198Output input = List.replicate M 0) ∧
        (¬(B = 0 ∧ M = 0) → m ≠ 0 → (eip198Output input).length = M ∧
          ofBytesBE (eip198Output input) =
            ofBytesBE (readBytes input 96 B) ^ ofBytesBE (readBytes input (96 + B) E) % m) := by
  refine ⟨RequiredGas_eq_eip198Gas, fun g hg hle => ⟨?_, fun B E M hl => eip198Output_cases hl⟩⟩
  rcases hl : lengthsOf input with ⟨B, E, M⟩
  exact Run_eq_eip198Output hl (RequiredGas_small hl hg hle)

/-- The theorem on lengths 1, 1, 1 with `b = 3`, `e = 5`, `m = 7`: no gas,
and one byte holding `3 ^ 5 mod 7`. -/
theorem bigModExp_meets_eip198_on_one_byte_operands :
    let input : List UInt8 := List.replicate 31 0 ++ [1] ++ List.replicate 31 0 ++ [1] ++
      List.replicate 31 0 ++ [1] ++ [3, 5, 7]
    RequiredGas input = some 0 ∧ Run input = some (eip198Output input) ∧
      (eip198Output input).length = 1 ∧ ofBytesBE (eip198Output input) = 5 := by
  intro input
  have hl : lengthsOf input = (1, 1, 1) := by decide
  have hgas : RequiredGas input = some 0 := by
    rw [(bigModExp_meets_eip198 input).1 (by decide)]
    decide
  obtain ⟨hrun, hout⟩ := (bigModExp_meets_eip198 input).2 0 hgas (by norm_num)
  obtain ⟨-, -, hval⟩ := hout 1 1 1 hl
  obtain ⟨hlen, hnum⟩ := hval (by decide) (by decide)
  refine ⟨hgas, hrun, hlen, ?_⟩
  rw [hnum]
  decide

end Btp.Vm
