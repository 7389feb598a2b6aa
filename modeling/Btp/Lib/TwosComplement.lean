import Mathlib

/-!
# Words of `w` bits and the integers they stand for

An interpreter that keeps its words as unbounded integers, as Go's
`math/big` does, truncates each result to `w` bits and reads a word as signed
through its top bit. The lemmas below relate that arithmetic to `BitVec w`:
truncated (`tdiv`, `tmod`) division written with signs and magnitudes, the
shifts past the width, sign extension from bit `k`, and one byte of a word.
-/

namespace TwosComplement

/-! ## Truncated division by signs and magnitudes -/

/-- A truncated quotient is the quotient of the magnitudes, negated when the
signs differ. -/
theorem tdiv_eq_natAbs {a b : Int} (ha : a ≠ 0) (hb : b ≠ 0) :
    a.tdiv b = if a.sign ≠ b.sign then -((a.natAbs / b.natAbs : Nat) : Int)
      else ((a.natAbs / b.natAbs : Nat) : Int) := by
  rcases a with (_ | m) | m <;> rcases b with (_ | n) | n <;>
    first | exact absurd rfl ha | exact absurd rfl hb | rfl

/-- A truncated remainder is the remainder of the magnitudes, with the sign of
the dividend. -/
theorem tmod_eq_natAbs (a b : Int) :
    a.tmod b = if a < 0 then -((a.natAbs % b.natAbs : Nat) : Int)
      else ((a.natAbs % b.natAbs : Nat) : Int) := by
  rcases a with m | m
  · have hm : ¬ Int.ofNat m < 0 := by simp
    rw [if_neg hm]
    rcases b <;> rfl
  · rw [if_pos (Int.negSucc_lt_zero m)]
    rcases b <;> rfl

/-! ## Shifts by at least the width -/

/-- Shifting a `w`-bit number left by `n ≥ w` leaves no bit below `w`. -/
theorem mul_two_pow_mod_of_le {w n : Nat} (x : Nat) (h : w ≤ n) : x * 2 ^ n % 2 ^ w = 0 :=
  Nat.mod_eq_zero_of_dvd (Dvd.dvd.mul_left (Nat.pow_dvd_pow 2 h) x)

/-- Shifting a `w`-bit number right by `n ≥ w` leaves nothing. -/
theorem div_two_pow_of_le {w n x : Nat} (hx : x < 2 ^ w) (h : w ≤ n) : x / 2 ^ n = 0 :=
  Nat.div_eq_of_lt (Nat.lt_of_lt_of_le hx (Nat.pow_le_pow_right (by omega) h))

/-- A negative number no larger in magnitude than the divisor floors to `-1`. -/
theorem ediv_eq_neg_one {a b : Int} (h1 : -b ≤ a) (h2 : a < 0) : a / b = -1 := by
  have hb : 0 < b := by omega
  exact ((Int.ediv_emod_unique (r := a + b) (q := -1) hb).2 ⟨by omega, by omega, by omega⟩).1

/-- An arithmetic shift of a signed `w`-bit number by `n ≥ w` leaves only the
sign: `0` or `-1`. -/
theorem ediv_two_pow_of_le {w n : Nat} {a : Int} (h1 : -2 ^ w ≤ a) (h2 : a < 2 ^ w)
    (h : w ≤ n) : a / 2 ^ n = if 0 ≤ a then 0 else -1 := by
  have hpow : (2 : Int) ^ w ≤ 2 ^ n := pow_le_pow_right₀ (by norm_num) h
  split_ifs with ha
  · exact Int.ediv_eq_zero_of_lt ha (by omega)
  · exact ediv_eq_neg_one (by omega) (by omega)

/-! ## Sign extension and bytes -/

/-- The low `k + 1` bits with bit `k` copied upwards, as a number: the bits
below `k`, plus every bit from `k` up when bit `k` is set. -/
theorem toNat_signExtend_setWidth {w v k : Nat} (x : BitVec w) (hv : v = k + 1) (hk : k < w) :
    ((x.setWidth v).signExtend w).toNat =
      if x.toNat.testBit k then x.toNat % 2 ^ k + (2 ^ w - 2 ^ k) else x.toNat % 2 ^ k := by
  subst hv
  have hmsb : (x.setWidth (k + 1)).msb = x.toNat.testBit k := by
    simp [BitVec.msb_setWidth, BitVec.getLsbD]
  rw [BitVec.toNat_signExtend, BitVec.toNat_setWidth_of_le (by omega), BitVec.toNat_setWidth, hmsb,
    Nat.testBit_eq_decide_div_mod_eq]
  -- bit `k` splits the low `k + 1` bits into the bits below it and itself
  have hlow : x.toNat % 2 ^ (k + 1) = x.toNat % 2 ^ k + 2 ^ k * (x.toNat / 2 ^ k % 2) :=
    Nat.mod_pow_succ
  have hpow : 2 ^ (k + 1) ≤ 2 ^ w := Nat.pow_le_pow_right (by omega) hk
  have hsucc : 2 ^ (k + 1) = 2 * 2 ^ k := by rw [Nat.pow_succ, Nat.mul_comm]
  rw [hsucc] at hlow hpow ⊢
  by_cases hb : x.toNat / 2 ^ k % 2 = 1
  · rw [hb] at hlow
    simp only [hb, decide_true, if_true]
    omega
  · have hb0 : x.toNat / 2 ^ k % 2 = 0 := by omega
    rw [hb0] at hlow
    simp only [hb, decide_false, Bool.false_eq_true, if_false]
    omega

/-- Byte `k` from the low end of a word of at least one byte. -/
theorem toNat_ushiftRight_and_ff {w : Nat} (x : BitVec w) (hw : 8 ≤ w) (k : Nat) :
    ((x >>> (8 * k)) &&& (255 : BitVec w)).toNat = x.toNat / 256 ^ k % 256 := by
  have h255 : (255 : BitVec w).toNat = 2 ^ 8 - 1 := by
    rw [show (255 : BitVec w) = BitVec.ofNat w 255 from rfl, BitVec.toNat_ofNat]
    exact Nat.mod_eq_of_lt (Nat.lt_of_lt_of_le (by norm_num) (Nat.pow_le_pow_right (by omega) hw))
  rw [BitVec.toNat_and, BitVec.toNat_ushiftRight, h255, Nat.and_two_pow_sub_one_eq_mod,
    Nat.shiftRight_eq_div_pow, pow_mul]
  rfl

end TwosComplement
