import Mathlib

/-!
# Casts between signed and unsigned 64-bit words

Go code converts freely between `int64` and `uint64` (`int64(n)`,
`uint64(x)`), and between the two and the numbers they stand for. On the
range where both types hold the value, below `2^63` and not negative, a cast
keeps the number; adding one to a signed word keeps it as long as the word is
below the maximum. These are the facts a loop over block numbers needs to
read its counter as a number.
-/

namespace WordCast

/-- An unsigned word below `2^63` casts to the signed word of the same
number. -/
theorem toInt_toInt64 {n : UInt64} (h : n.toNat < 2 ^ 63) : n.toInt64.toInt = n.toNat := by
  have hbv : n.toInt64.toInt = n.toBitVec.toInt := rfl
  rw [hbv, BitVec.toInt_eq_toNat_of_lt (by rw [UInt64.toNat_toBitVec]; omega),
    UInt64.toNat_toBitVec]

/-- A non-negative signed word casts to the unsigned word of the same
number. -/
theorem toNat_toUInt64 {x : Int64} (h : 0 ≤ x.toInt) : x.toUInt64.toNat = x.toInt.toNat := by
  rw [Int64.toNat_toUInt64_of_le (Int64.le_iff_toInt_le.2 (by simpa using h))]
  rfl

/-- Adding one to a signed word below the maximum does not wrap. -/
theorem toInt_add_one {x : Int64} (h : x.toInt < 2 ^ 63 - 1) : (x + 1).toInt = x.toInt + 1 := by
  have hlo := Int64.le_toInt x
  rw [Int64.toInt_add, show (1 : Int64).toInt = 1 from rfl]
  exact Int.bmod_eq_of_le (by simp at hlo ⊢; omega) (by simp; omega)

/-- A number below `2^63` read as an unsigned word and cast to a signed one
keeps its value. -/
theorem toInt_toInt64_toUInt64 {n : Nat} (h : n < 2 ^ 63) : n.toUInt64.toInt64.toInt = n := by
  have hn : n.toUInt64.toNat = n := by
    rw [Nat.toUInt64, UInt64.toNat_ofNat', Nat.mod_eq_of_lt (by omega)]
  rw [toInt_toInt64 (by rw [hn]; exact h), hn]

/-- Adding two non-negative signed words whose sum is below `2^63` does not
wrap. -/
theorem toInt_add_of_nonneg {x y : Int64} (hx : 0 ≤ x.toInt) (hy : 0 ≤ y.toInt)
    (h : x.toInt + y.toInt < 2 ^ 63) : (x + y).toInt = x.toInt + y.toInt := by
  rw [Int64.toInt_add]
  exact Int.bmod_eq_of_le (by simp; omega) (by simp; omega)

/-- A signed operation whose exact result is in range does not wrap. -/
theorem bmod_of_range {x : Int} (hl : -2 ^ 63 ≤ x) (hu : x < 2 ^ 63) : x.bmod (2 ^ 64) = x :=
  Int.bmod_eq_of_le (by norm_num; omega) (by norm_num; omega)

theorem toInt_sub_of_range {a b : Int64} (hl : -2 ^ 63 ≤ a.toInt - b.toInt)
    (hu : a.toInt - b.toInt < 2 ^ 63) : (a - b).toInt = a.toInt - b.toInt := by
  rw [Int64.toInt_sub, bmod_of_range hl hu]

theorem toInt_add_of_range {a b : Int64} (hl : -2 ^ 63 ≤ a.toInt + b.toInt)
    (hu : a.toInt + b.toInt < 2 ^ 63) : (a + b).toInt = a.toInt + b.toInt := by
  rw [Int64.toInt_add, bmod_of_range hl hu]

theorem toInt_mul_of_range {a b : Int64} (hl : -2 ^ 63 ≤ a.toInt * b.toInt)
    (hu : a.toInt * b.toInt < 2 ^ 63) : (a * b).toInt = a.toInt * b.toInt := by
  rw [Int64.toInt_mul, bmod_of_range hl hu]

/-- Raising a signed word to at least `c`, as `if x < c { x = c }`. -/
theorem toInt_raise (x c : Int64) : (if x < c then c else x).toInt = max x.toInt c.toInt := by
  split_ifs with h <;> rw [Int64.lt_iff_toInt_lt] at h <;> omega

/-- Capping a signed word at `c`, as `if x > c { x = c }`. -/
theorem toInt_cap (x c : Int64) : (if x > c then c else x).toInt = min x.toInt c.toInt := by
  split_ifs with h <;> rw [gt_iff_lt, Int64.lt_iff_toInt_lt] at h <;> omega

end WordCast
