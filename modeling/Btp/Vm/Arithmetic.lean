import Mathlib
import Btp.Lib.TwosComplement
import Btp.Vm.Instructions

/-!
# The arithmetic, comparison and bitwise instructions against the Yellow Paper

`core/vm/instructions.go` computes on unbounded `*big.Int` values and
truncates with `math.U256` or reads signed with `math.S256`, each instruction
at its own place. The Yellow Paper states the same instructions on 256-bit
words. This module writes the Yellow Paper's functions over `BitVec 256`
(namespace `YP`) and proves, for each of the 24 instructions, that on a stack
of words it leaves the Yellow Paper's result in place of its operands.
-/

namespace Btp.Vm

open TwosComplement

/-- A word of the EVM. -/
abbrev Word := BitVec 256

/-! ## The Yellow Paper's instructions -/

namespace YP

def ADD (x y : Word) : Word := BitVec.ofNat 256 (x.toNat + y.toNat)
def SUB (x y : Word) : Word := BitVec.ofInt 256 ((x.toNat : Int) - y.toNat)
def MUL (x y : Word) : Word := BitVec.ofNat 256 (x.toNat * y.toNat)
def DIV (x y : Word) : Word := if y = 0 then 0 else BitVec.ofNat 256 (x.toNat / y.toNat)

/-- Signed division rounds towards zero; the one quotient that does not fit,
`-2^255 / -1`, is `-2^255`. -/
def SDIV (x y : Word) : Word :=
  if y = 0 then 0
  else if x.toInt = -2 ^ 255 ∧ y.toInt = -1 then BitVec.ofInt 256 (-2 ^ 255)
  else BitVec.ofInt 256 (x.toInt.tdiv y.toInt)

def MOD (x y : Word) : Word := if y = 0 then 0 else BitVec.ofNat 256 (x.toNat % y.toNat)

/-- The signed remainder takes the sign of the dividend. -/
def SMOD (x y : Word) : Word := if y = 0 then 0 else BitVec.ofInt 256 (x.toInt.tmod y.toInt)

/-- The sum and the product are taken before the reduction, not modulo `2^256`. -/
def ADDMOD (x y z : Word) : Word :=
  if z = 0 then 0 else BitVec.ofNat 256 ((x.toNat + y.toNat) % z.toNat)

def MULMOD (x y z : Word) : Word :=
  if z = 0 then 0 else BitVec.ofNat 256 ((x.toNat * y.toNat) % z.toNat)

/-- Extend the sign of the low `b + 1` bytes; from `b = 31` on, the word is
already all of its bytes. -/
def SIGNEXTEND (b x : Word) : Word :=
  if b.toNat < 31 then (x.setWidth (8 * (b.toNat + 1))).signExtend 256 else x

def LT (x y : Word) : Word := if x.toNat < y.toNat then 1 else 0
def GT (x y : Word) : Word := if x.toNat > y.toNat then 1 else 0
def SLT (x y : Word) : Word := if x.toInt < y.toInt then 1 else 0
def SGT (x y : Word) : Word := if x.toInt > y.toInt then 1 else 0
def EQ (x y : Word) : Word := if x = y then 1 else 0
def ISZERO (x : Word) : Word := if x = 0 then 1 else 0
def AND (x y : Word) : Word := x &&& y
def OR (x y : Word) : Word := x ||| y
def XOR (x y : Word) : Word := x ^^^ y
def NOT (x : Word) : Word := ~~~x

/-- Byte `i` of `x`, counted from the most significant; none past the 32nd. -/
def BYTE (i x : Word) : Word := if i.toNat < 32 then (x >>> (8 * (31 - i.toNat))) &&& 0xff else 0

/-- `x · 2^shift` modulo `2^256`. -/
def SHL (shift x : Word) : Word := BitVec.ofNat 256 (x.toNat * 2 ^ shift.toNat)

/-- `⌊x / 2^shift⌋`. -/
def SHR (shift x : Word) : Word := BitVec.ofNat 256 (x.toNat / 2 ^ shift.toNat)

/-- `⌊x / 2^shift⌋` with `x` read as signed. -/
def SAR (shift x : Word) : Word := BitVec.ofInt 256 (x.toInt / 2 ^ shift.toNat)

end YP

/-- The one-operand instructions of the Yellow Paper, by their execute
functions. -/
def ypUnary : Execute → Option (Word → Word)
  | .opIszero => some YP.ISZERO
  | .opNot => some YP.NOT
  | _ => none

/-- The two-operand instructions; the first operand is the top of the stack. -/
def ypBinary : Execute → Option (Word → Word → Word)
  | .opAdd => some YP.ADD
  | .opSub => some YP.SUB
  | .opMul => some YP.MUL
  | .opDiv => some YP.DIV
  | .opSdiv => some YP.SDIV
  | .opMod => some YP.MOD
  | .opSmod => some YP.SMOD
  | .opSignExtend => some YP.SIGNEXTEND
  | .opLt => some YP.LT
  | .opGt => some YP.GT
  | .opSlt => some YP.SLT
  | .opSgt => some YP.SGT
  | .opEq => some YP.EQ
  | .opAnd => some YP.AND
  | .opOr => some YP.OR
  | .opXor => some YP.XOR
  | .opByte => some YP.BYTE
  | .opSHL => some YP.SHL
  | .opSHR => some YP.SHR
  | .opSAR => some YP.SAR
  | _ => none

/-- The three-operand instructions. -/
def ypTernary : Execute → Option (Word → Word → Word → Word)
  | .opAddmod => some YP.ADDMOD
  | .opMulmod => some YP.MULMOD
  | _ => none

/-! ## `U256` and `S256` on words -/

theorem U256_eq (i : Int) : U256 i = (BitVec.ofInt 256 i).toNat := by
  rw [BitVec.toNat_ofInt, U256]
  norm_num

theorem U256_natCast (n : Nat) : U256 n = n % 2 ^ 256 := by
  unfold U256
  omega

theorem U256_toNat (x : Word) : U256 x.toNat = x.toNat := by
  rw [U256_natCast, Nat.mod_eq_of_lt x.isLt]

theorem S256_toNat (x : Word) : S256 x.toNat = x.toInt := by
  rw [BitVec.toInt_eq_toNat_cond, S256]
  have := x.isLt
  split_ifs <;> first | rfl | omega

theorem toNat_ofNat_word (n : Nat) : (BitVec.ofNat 256 n).toNat = n % 2 ^ 256 :=
  BitVec.toNat_ofNat n 256

theorem toNat_bool_word (c : Prop) [Decidable c] :
    (if c then 1 else 0 : Word).toNat = if c then 1 else 0 := by
  split_ifs <;> rfl

theorem toNat_eq_zero_word (x : Word) : x.toNat = 0 ↔ x = 0 := by
  simp [BitVec.toNat_eq]

theorem toInt_eq_zero_word (x : Word) : x.toInt = 0 ↔ x = 0 := by
  rw [← toNat_eq_zero_word, ← S256_toNat, S256]
  split_ifs <;> omega

/-- A word read as signed lies in `[-2^255, 2^255)`. -/
theorem toInt_bounds_word (x : Word) : -2 ^ 255 ≤ x.toInt ∧ x.toInt < 2 ^ 255 := by
  have := x.isLt
  rw [← S256_toNat, S256]
  split_ifs <;> omega

/-! ## The shapes of the instructions on a stack of words -/

section Shapes

variable {x y z v : Nat} (rest : List Nat)

theorem popPeek_cons {g : Nat → Nat → Nat} (hv : g x y = v) :
    popPeek g ⟨x :: y :: rest⟩ = some ⟨v :: rest⟩ := by
  rw [← hv]
  rfl

theorem popPopPush_cons {g : Nat → Nat → Nat} (hv : g x y = v) :
    popPopPush g ⟨x :: y :: rest⟩ = some ⟨v :: rest⟩ := by
  rw [← hv]
  rfl

theorem popPopPopPush_cons {g : Nat → Nat → Nat → Nat} (hv : g x y z = v) :
    popPopPopPush g ⟨x :: y :: z :: rest⟩ = some ⟨v :: rest⟩ := by
  rw [← hv]
  rfl

theorem peekSet_cons {g : Nat → Nat} (hv : g x = v) : peekSet g ⟨x :: rest⟩ = some ⟨v :: rest⟩ := by
  rw [← hv]
  rfl

end Shapes

/-! ## Each instruction on words -/

section Words

variable (x y z : Word) (rest : List Nat)

@[simp] theorem opAdd_words : opAdd ⟨x.toNat :: y.toNat :: rest⟩ = some ⟨(YP.ADD x y).toNat :: rest⟩ := by
  apply popPeek_cons
  simp only [YP.ADD, toNat_ofNat_word, U256]
  omega

@[simp] theorem opSub_words : opSub ⟨x.toNat :: y.toNat :: rest⟩ = some ⟨(YP.SUB x y).toNat :: rest⟩ := by
  apply popPeek_cons
  simp only [YP.SUB, U256_eq]

@[simp] theorem opMul_words : opMul ⟨x.toNat :: y.toNat :: rest⟩ = some ⟨(YP.MUL x y).toNat :: rest⟩ := by
  apply popPopPush_cons
  simp only [YP.MUL, toNat_ofNat_word, U256]
  omega

@[simp] theorem opDiv_words : opDiv ⟨x.toNat :: y.toNat :: rest⟩ = some ⟨(YP.DIV x y).toNat :: rest⟩ := by
  apply popPeek_cons
  have hy : y.toNat ≠ 0 ↔ y ≠ 0 := by simp [BitVec.toNat_eq]
  by_cases h0 : y = 0
  · simp only [YP.DIV, h0, if_true]
    simp
  · simp only [YP.DIV, h0, if_false, hy.2 h0, ne_eq, not_false_eq_true, if_true, toNat_ofNat_word, U256]
    omega

theorem sdiv_words : sdiv x.toNat y.toNat = (YP.SDIV x y).toNat := by
  simp only [sdiv, S256_toNat]
  by_cases hy : y = 0
  · simp [YP.SDIV, hy]
  have hy' : y.toInt ≠ 0 := fun h => hy ((toInt_eq_zero_word y).1 h)
  rw [YP.SDIV, if_neg hy]
  by_cases hx : x.toInt = 0
  · simp [hx]
  -- both operands are non-zero: the source's sign-and-magnitude quotient is `tdiv`
  have ht := tdiv_eq_natAbs hx hy'
  have hq : (if x.toInt.sign ≠ y.toInt.sign then U256 (-((x.toInt.natAbs / y.toInt.natAbs : Nat) : Int))
      else U256 ((x.toInt.natAbs / y.toInt.natAbs : Nat) : Int)) = U256 (x.toInt.tdiv y.toInt) := by
    rw [ht]
    split_ifs <;> rfl
  rw [if_neg (by simp [hy', hx]), hq, U256_eq]
  split_ifs with hmin
  · -- `-2^255 / -1` is `2^255`, the same word as `-2^255`
    rw [hmin.1, hmin.2]
    rfl
  · rfl

@[simp] theorem opSdiv_words : opSdiv ⟨x.toNat :: y.toNat :: rest⟩ = some ⟨(YP.SDIV x y).toNat :: rest⟩ :=
  popPopPush_cons rest (sdiv_words x y)

@[simp] theorem opMod_words : opMod ⟨x.toNat :: y.toNat :: rest⟩ = some ⟨(YP.MOD x y).toNat :: rest⟩ := by
  apply popPopPush_cons
  by_cases h0 : y = 0
  · simp [YP.MOD, h0]
  · have hy : y.toNat ≠ 0 := fun h => h0 ((toNat_eq_zero_word y).1 h)
    simp only [YP.MOD, h0, hy, if_false, toNat_ofNat_word, U256]
    omega

theorem smod_words : smod x.toNat y.toNat = (YP.SMOD x y).toNat := by
  simp only [smod, S256_toNat]
  by_cases hy : y = 0
  · simp [YP.SMOD, hy]
  have hy' : y.toInt ≠ 0 := fun h => hy ((toInt_eq_zero_word y).1 h)
  rw [YP.SMOD, if_neg hy, if_neg hy', ← U256_eq, tmod_eq_natAbs]
  split_ifs <;> rfl

@[simp] theorem opSmod_words : opSmod ⟨x.toNat :: y.toNat :: rest⟩ = some ⟨(YP.SMOD x y).toNat :: rest⟩ :=
  popPopPush_cons rest (smod_words x y)

@[simp] theorem opAddmod_words :
    opAddmod ⟨x.toNat :: y.toNat :: z.toNat :: rest⟩ = some ⟨(YP.ADDMOD x y z).toNat :: rest⟩ := by
  apply popPopPopPush_cons
  by_cases h0 : z = 0
  · simp [YP.ADDMOD, h0]
  · have hz : z.toNat ≠ 0 := fun h => h0 ((toNat_eq_zero_word z).1 h)
    simp only [YP.ADDMOD, h0, if_false, toNat_ofNat_word]
    rw [if_pos (Nat.pos_of_ne_zero hz), ← Nat.cast_add, ← Int.natCast_mod, U256_natCast]

@[simp] theorem opMulmod_words :
    opMulmod ⟨x.toNat :: y.toNat :: z.toNat :: rest⟩ = some ⟨(YP.MULMOD x y z).toNat :: rest⟩ := by
  apply popPopPopPush_cons
  by_cases h0 : z = 0
  · simp [YP.MULMOD, h0]
  · have hz : z.toNat ≠ 0 := fun h => h0 ((toNat_eq_zero_word z).1 h)
    simp only [YP.MULMOD, h0, if_false, toNat_ofNat_word]
    rw [if_pos (Nat.pos_of_ne_zero hz), ← Nat.cast_mul, ← Int.natCast_mod, U256_natCast]

@[simp] theorem opSignExtend_words :
    opSignExtend ⟨x.toNat :: y.toNat :: rest⟩ = some ⟨(YP.SIGNEXTEND x y).toNat :: rest⟩ := by
  by_cases hb : x.toNat < 31
  · -- the sign bit is bit `8 * back + 7` of the next item
    have hext := toNat_signExtend_setWidth (v := 8 * (x.toNat + 1)) (k := x.toNat * 8 + 7) y
      (by omega) (by omega)
    have hpow : 2 ^ (x.toNat * 8 + 7) < 2 ^ 256 := Nat.pow_lt_pow_right (by omega) (by omega)
    have hmod : y.toNat % 2 ^ (x.toNat * 8 + 7) < 2 ^ (x.toNat * 8 + 7) := Nat.mod_lt _ (by positivity)
    have hcast : ((y.toNat : Int) % 2 ^ (x.toNat * 8 + 7)) = ((y.toNat % 2 ^ (x.toNat * 8 + 7) : Nat) : Int) := by
      push_cast
      rfl
    simp only [opSignExtend, Stack.pop, bind, Option.bind, hb, if_true, pure, YP.SIGNEXTEND, hext]
    split_ifs
    · rw [← Nat.cast_add, U256_natCast, Nat.mod_eq_of_lt (by omega)]
      rfl
    · rw [hcast, U256_natCast, Nat.mod_eq_of_lt (by omega)]
      rfl
  · -- from byte 31 on the item stays as it is
    simp only [opSignExtend, Stack.pop, bind, Option.bind, hb, if_false, pure, YP.SIGNEXTEND]

@[simp] theorem opLt_words : opLt ⟨x.toNat :: y.toNat :: rest⟩ = some ⟨(YP.LT x y).toNat :: rest⟩ := by
  apply popPeek_cons
  rw [YP.LT, toNat_bool_word]

@[simp] theorem opGt_words : opGt ⟨x.toNat :: y.toNat :: rest⟩ = some ⟨(YP.GT x y).toNat :: rest⟩ := by
  apply popPeek_cons
  rw [YP.GT, toNat_bool_word]

/-- The source compares the sign bits first, then the words as unsigned. -/
@[simp] theorem opSlt_words : opSlt ⟨x.toNat :: y.toNat :: rest⟩ = some ⟨(YP.SLT x y).toNat :: rest⟩ := by
  apply popPeek_cons
  rw [YP.SLT, toNat_bool_word, ← S256_toNat x, ← S256_toNat y, S256, S256]
  split_ifs <;> omega

@[simp] theorem opSgt_words : opSgt ⟨x.toNat :: y.toNat :: rest⟩ = some ⟨(YP.SGT x y).toNat :: rest⟩ := by
  apply popPeek_cons
  rw [YP.SGT, toNat_bool_word, ← S256_toNat x, ← S256_toNat y, S256, S256]
  split_ifs <;> omega

@[simp] theorem opEq_words : opEq ⟨x.toNat :: y.toNat :: rest⟩ = some ⟨(YP.EQ x y).toNat :: rest⟩ := by
  apply popPeek_cons
  rw [YP.EQ, toNat_bool_word]
  simp only [BitVec.toNat_inj]

@[simp] theorem opIszero_words : opIszero ⟨x.toNat :: rest⟩ = some ⟨(YP.ISZERO x).toNat :: rest⟩ := by
  apply peekSet_cons
  rw [YP.ISZERO, toNat_bool_word]
  simp only [← toNat_eq_zero_word]
  split_ifs <;> omega

@[simp] theorem opAnd_words : opAnd ⟨x.toNat :: y.toNat :: rest⟩ = some ⟨(YP.AND x y).toNat :: rest⟩ :=
  popPopPush_cons rest (BitVec.toNat_and x y).symm

@[simp] theorem opOr_words : opOr ⟨x.toNat :: y.toNat :: rest⟩ = some ⟨(YP.OR x y).toNat :: rest⟩ :=
  popPeek_cons rest (BitVec.toNat_or x y).symm

@[simp] theorem opXor_words : opXor ⟨x.toNat :: y.toNat :: rest⟩ = some ⟨(YP.XOR x y).toNat :: rest⟩ :=
  popPeek_cons rest (BitVec.toNat_xor x y).symm

@[simp] theorem opNot_words : opNot ⟨x.toNat :: rest⟩ = some ⟨(YP.NOT x).toNat :: rest⟩ := by
  apply peekSet_cons
  have := x.isLt
  simp only [YP.NOT, BitVec.toNat_not, U256]
  omega

/-- `math.Byte` counts bytes from the most significant, the Yellow Paper's
shift from the least. -/
@[simp] theorem opByte_words : opByte ⟨x.toNat :: y.toNat :: rest⟩ = some ⟨(YP.BYTE x y).toNat :: rest⟩ := by
  apply popPeek_cons
  rw [YP.BYTE]
  split_ifs
  · rw [toNat_ushiftRight_and_ff y (by omega)]
    rfl
  · rfl

@[simp] theorem opSHL_words : opSHL ⟨x.toNat :: y.toNat :: rest⟩ = some ⟨(YP.SHL x y).toNat :: rest⟩ := by
  apply popPeek_cons
  simp only [U256_toNat]
  simp only [YP.SHL, toNat_ofNat_word, Nat.shiftLeft_eq, U256_natCast]
  split_ifs with hs
  · rw [mul_two_pow_mod_of_le _ hs]
  · rfl

@[simp] theorem opSHR_words : opSHR ⟨x.toNat :: y.toNat :: rest⟩ = some ⟨(YP.SHR x y).toNat :: rest⟩ := by
  apply popPeek_cons
  simp only [U256_toNat]
  simp only [YP.SHR, toNat_ofNat_word, Nat.shiftRight_eq_div_pow, U256_natCast]
  split_ifs with hs
  · rw [div_two_pow_of_le y.isLt hs, Nat.zero_mod]
  · rfl

/-- The source shifts by 256 or more to the sign alone, `0` or `-1`: the
floor of the quotient by so large a power of two. -/
@[simp] theorem opSAR_words : opSAR ⟨x.toNat :: y.toNat :: rest⟩ = some ⟨(YP.SAR x y).toNat :: rest⟩ := by
  apply popPopPush_cons
  obtain ⟨hlo, hhi⟩ := toInt_bounds_word y
  simp only [YP.SAR, ← U256_eq, U256_toNat, S256_toNat, Int.shiftRight_eq_div_pow, Nat.cast_pow,
    Nat.cast_ofNat]
  split_ifs with hs hy
  · rw [ediv_two_pow_of_le (w := 256) (by omega) (by omega) hs, if_pos hy]
    rfl
  · rw [ediv_two_pow_of_le (w := 256) (by omega) (by omega) hs, if_neg hy]
  · rfl

end Words

/-! ## The instructions as the interpreter runs them -/

theorem run_onStack {σ : Type} (f : Frame) (s : σ) {op : Stack → Option Stack} {st : Stack}
    (hop : op f.stack = some st) : onStack f s op = some (.ok ([], { f with stack := st }, s)) := by
  rw [onStack, hop]
  rfl

/-- On a stack of words, each of the 24 instructions replaces its operands by
the Yellow Paper's result and leaves the rest of the stack as it was, so that
every item on the stack is again a word. `words ws` is the frame whose stack
holds the words `ws` on top of `rest`. -/
theorem words_follow_yellow_paper {σ : Type} (h : Host σ) (f : Frame) (s : σ) (x y z : Word)
    (rest : List Word) (op : Execute) :
    let words : List Word → Frame := fun ws => { f with stack := ⟨(ws ++ rest).map BitVec.toNat⟩ }
    (match ypUnary op with
      | some g => Execute.run h (words [x]) s op = some (.ok ([], words [g x], s))
      | none => True) ∧
    (match ypBinary op with
      | some g => Execute.run h (words [x, y]) s op = some (.ok ([], words [g x y], s))
      | none => True) ∧
    (match ypTernary op with
      | some g => Execute.run h (words [x, y, z]) s op = some (.ok ([], words [g x y z], s))
      | none => True) := by
  intro words
  -- each instruction with a Yellow Paper function runs on the stack alone
  cases op <;> refine ⟨?_, ?_, ?_⟩ <;> first | trivial | exact run_onStack _ s (by simp [words])

end Btp.Vm
