import Mathlib

/-!
# Byte strings read as MSB-first bit arrays

A list of bytes stands for a bit array in which position `p` is bit
`p % 8` of byte `p / 8`, counting from the most significant bit. The
lemmas below say how or-ing a mask into one byte changes the array,
for the three masks a bit-array writer needs: a single bit, the tail of
a byte from a bit on, and the head of a byte up to a bit. `Encodes`
says which bits an array of a given bit length holds.

The same bytes read as a big-endian number number their bits the other
way: bit `i` is bit `i % 8`, from the least significant, of the byte
`i / 8` places from the end (`testBit_ofBytesBE`).
-/

namespace ByteBits

/-- Bit `k` of `b`, counted from the most significant bit. -/
def testMsb (b : UInt8) (k : Nat) : Bool :=
  (b &&& (0x80 >>> k.toUInt8)) != 0

/-- Bit `p` of the array `bits`: bit `p % 8` of byte `p / 8`, and unset
past the end. -/
def bitAt (bits : List UInt8) (p : Nat) : Bool :=
  testMsb (bits.getD (p / 8) 0) (p % 8)

/-! ## Bits of a byte -/

theorem and_or_distrib_right (a b m : UInt8) :
    (a ||| b) &&& m = (a &&& m) ||| (b &&& m) :=
  UInt8.toBitVec_inj.1 (by simp [BitVec.and_or_distrib_right])

@[simp] theorem testMsb_or (a b : UInt8) (k : Nat) :
    testMsb (a ||| b) k = (testMsb a k || testMsb b k) := by
  unfold testMsb
  rw [and_or_distrib_right, Bool.eq_iff_iff]
  simp only [bne_iff_ne, ne_eq, Bool.or_eq_true, UInt8.or_eq_zero_iff]
  tauto

@[simp] theorem testMsb_zero (k : Nat) : testMsb 0 k = false := by
  simp [testMsb]

/-- The single-bit mask `0x80 >> k` selects exactly bit `k`. -/
theorem testMsb_bit {j k : Nat} (hj : j < 8) (hk : k < 8) :
    testMsb (0x80 >>> k.toUInt8) j = (j == k) := by
  have key : ∀ j k : Fin 8,
      testMsb (0x80 >>> k.val.toUInt8) j.val = (j.val == k.val) := by decide
  exact key ⟨j, hj⟩ ⟨k, hk⟩

/-- The tail mask `0xFF >> k` selects the bits from `k` on. -/
theorem testMsb_tail {j k : Nat} (hj : j < 8) (hk : k < 8) :
    testMsb (0xFF >>> k.toUInt8) j = decide (k ≤ j) := by
  have key : ∀ j k : Fin 8,
      testMsb (0xFF >>> k.val.toUInt8) j.val = decide (k.val ≤ j.val) := by decide
  exact key ⟨j, hj⟩ ⟨k, hk⟩

/-- The head mask `^(0xFF >> k)` selects the bits before `k`. -/
theorem testMsb_head {j k : Nat} (hj : j < 8) (hk : k < 8) :
    testMsb (~~~(0xFF >>> k.toUInt8)) j = decide (j < k) := by
  have key : ∀ j k : Fin 8,
      testMsb (~~~(0xFF >>> k.val.toUInt8)) j.val = decide (j.val < k.val) := by decide
  exact key ⟨j, hj⟩ ⟨k, hk⟩

/-! ## Or-ing a mask into one byte of the array -/

theorem getD_modify_or {bits : List UInt8} {i : Nat} (h : i < bits.length)
    (m : UInt8) (j : Nat) :
    (bits.modify i (· ||| m)).getD j 0 =
      if i = j then bits.getD j 0 ||| m else bits.getD j 0 := by
  simp only [List.getD_eq_getElem?_getD, List.getElem?_modify]
  by_cases hij : i = j
  · subst hij
    simp [List.getElem?_eq_getElem h]
  · simp only [hij, if_false]
    cases bits[j]? <;> rfl

/-- Or-ing `m` into byte `i` sets, among the bits of that byte, exactly the
bits of `m`, and leaves every other position alone. -/
theorem bitAt_modify_or {bits : List UInt8} {i : Nat} (h : i < bits.length)
    (m : UInt8) (p : Nat) :
    bitAt (bits.modify i (· ||| m)) p =
      (bitAt bits p || (p / 8 == i && testMsb m (p % 8))) := by
  unfold bitAt
  rw [getD_modify_or h]
  by_cases hip : i = p / 8
  · simp [hip]
  · have : (p / 8 == i) = false := by simpa using Ne.symm hip
    simp [hip, this]

@[simp] theorem length_modify_or (bits : List UInt8) (i : Nat) (m : UInt8) :
    (bits.modify i (· ||| m)).length = bits.length :=
  List.length_modify _ _ _

@[simp] theorem bitAt_replicate_zero (n p : Nat) :
    bitAt (List.replicate n 0) p = false := by
  unfold bitAt
  rw [List.getD_eq_getElem?_getD, List.getElem?_replicate]
  split <;> simp

/-- Reading a bit inside the array is the byte test at its index. -/
theorem bitAt_eq_testMsb {bits : List UInt8} {p : Nat} (h : p / 8 < bits.length) :
    bitAt bits p = testMsb bits[p / 8] (p % 8) := by
  simp [bitAt, List.getD_eq_getElem?_getD, List.getElem?_eq_getElem h]

/-! ## Single-bit masks -/

theorem bne_zero_toNat (x : UInt8) : (x != 0) = (x.toNat != 0) := by
  rw [Bool.eq_iff_iff]
  simp only [bne_iff_ne, ne_eq, ← UInt8.toNat_inj, UInt8.toNat_zero]

/-- `b & (1 << k) != 0` tests bit `k` of `b`, from the least significant. -/
theorem and_shiftLeft_ne_zero (b : UInt8) {k : Nat} (hk : k < 8) :
    (b &&& (1 <<< k.toUInt8) != 0) = b.toNat.testBit k := by
  have hmask : ((1 : UInt8) <<< k.toUInt8).toNat = 2 ^ k := by
    have key : ∀ k : Fin 8, ((1 : UInt8) <<< k.val.toUInt8).toNat = 2 ^ k.val := by decide
    exact key ⟨k, hk⟩
  rw [bne_zero_toNat, UInt8.toNat_and, hmask, Nat.and_two_pow]
  cases b.toNat.testBit k <;> simp

/-- The mask `1 << (7 - k)` is the MSB-first mask `0x80 >> k`. -/
theorem one_shiftLeft_seven_sub {k : Nat} (hk : k < 8) :
    (1 : UInt8) <<< (7 - k).toUInt8 = 0x80 >>> k.toUInt8 := by
  have key : ∀ k : Fin 8, (1 : UInt8) <<< (7 - k.val).toUInt8 = 0x80 >>> k.val.toUInt8 := by
    decide
  exact key ⟨k, hk⟩

theorem testMsb_eq_testBit (b : UInt8) {k : Nat} (hk : k < 8) :
    testMsb b k = b.toNat.testBit (7 - k) := by
  rw [testMsb, ← one_shiftLeft_seven_sub hk, and_shiftLeft_ne_zero b (by omega)]

theorem testMsb_and (a b : UInt8) {k : Nat} (hk : k < 8) :
    testMsb (a &&& b) k = (testMsb a k && testMsb b k) := by
  simp only [testMsb_eq_testBit _ hk, UInt8.toNat_and, Nat.testBit_land]

theorem testMsb_ff {k : Nat} (hk : k < 8) : testMsb 0xff k = true := by
  have key : ∀ k : Fin 8, testMsb 0xff k.val = true := by decide
  exact key ⟨k, hk⟩

/-- A byte is nonzero exactly when one of its eight bits is set. -/
theorem ne_zero_iff_testMsb (b : UInt8) : b ≠ 0 ↔ ∃ k < 8, testMsb b k = true := by
  constructor
  · intro hb
    have hb' : b.toNat ≠ 0 := by rwa [ne_eq, ← UInt8.toNat_inj, UInt8.toNat_zero] at hb
    obtain ⟨i, hi⟩ := Nat.exists_testBit_of_ne_zero hb'
    have hi8 : i < 8 := by
      by_contra h
      have hlt : b.toNat < 2 ^ i :=
        lt_of_lt_of_le (UInt8.toNat_lt b) (Nat.pow_le_pow_right (by norm_num) (by omega))
      rw [Nat.testBit_lt_two_pow hlt] at hi
      exact Bool.false_ne_true hi
    refine ⟨7 - i, by omega, ?_⟩
    rw [testMsb_eq_testBit _ (by omega), show 7 - (7 - i) = i by omega, hi]
  · rintro ⟨k, -, h⟩ rfl
    simp at h

/-! ## Bit arrays of a given length -/

theorem bitAt_of_length_le {bits : List UInt8} {p : Nat} (h : bits.length ≤ p / 8) :
    bitAt bits p = false := by
  simp [bitAt, List.getD_eq_getElem?_getD, List.getElem?_eq_none h]

/-- `bits` holds the `n` bits `f 0, …, f (n - 1)`, in `n / 8` bytes. -/
structure Encodes (bits : List UInt8) (n : Nat) (f : Nat → Bool) : Prop where
  length : 8 * bits.length = n
  bitAt_eq : ∀ p, bitAt bits p = (decide (p < n) && f p)

theorem Encodes.congr {bits : List UInt8} {n : Nat} {f g : Nat → Bool}
    (h : Encodes bits n f) (hfg : ∀ p < n, f p = g p) : Encodes bits n g := by
  refine ⟨h.length, fun p => ?_⟩
  rw [h.bitAt_eq]
  by_cases hp : p < n
  · simp [hp, hfg p hp]
  · simp [hp]

theorem encodes_replicate_ff (k : Nat) : Encodes (List.replicate k 0xff) (8 * k) fun _ => true := by
  refine ⟨by simp, fun p => ?_⟩
  unfold bitAt
  rw [List.getD_eq_getElem?_getD, List.getElem?_replicate]
  by_cases hp : p < 8 * k
  · simp [show p / 8 < k by omega, hp, testMsb_ff (Nat.mod_lt p (by norm_num))]
  · simp [show ¬p / 8 < k by omega, hp]

theorem encodes_replicate_zero (k : Nat) :
    Encodes (List.replicate k 0) (8 * k) fun _ => false :=
  ⟨by simp, fun p => by simp⟩

/-- A nonzero byte in the array is a set bit among the `n` it holds. -/
theorem Encodes.any_ne_zero {bits : List UInt8} {n : Nat} {f : Nat → Bool}
    (h : Encodes bits n f) : bits.any (· != 0) = true ↔ ∃ p < n, f p = true := by
  simp only [List.any_eq_true, bne_iff_ne, ne_eq]
  constructor
  · rintro ⟨x, hx, hx0⟩
    obtain ⟨i, hi, rfl⟩ := List.getElem_of_mem hx
    obtain ⟨k, hk, hbit⟩ := (ne_zero_iff_testMsb _).1 hx0
    have hp : bitAt bits (8 * i + k) = true := by
      rw [bitAt_eq_testMsb (by omega)]
      simpa [show (8 * i + k) / 8 = i by omega, show (8 * i + k) % 8 = k by omega] using hbit
    rw [h.bitAt_eq] at hp
    simp only [Bool.and_eq_true, decide_eq_true_eq] at hp
    exact ⟨8 * i + k, hp⟩
  · rintro ⟨p, hp, hfp⟩
    have hbit : bitAt bits p = true := by simp [h.bitAt_eq, hp, hfp]
    have hlt : p / 8 < bits.length := by have := h.length; omega
    rw [bitAt_eq_testMsb hlt] at hbit
    refine ⟨bits[p / 8], List.getElem_mem hlt, ?_⟩
    rintro h0
    rw [h0, testMsb_zero] at hbit
    exact Bool.false_ne_true hbit

/-- Or-ing the single-bit mask of position `j` into its byte sets bit `j`. -/
theorem Encodes.modify_or {bits : List UInt8} {n j : Nat} {f : Nat → Bool}
    (h : Encodes bits n f) (hj : j < n) :
    Encodes (bits.modify (j / 8) (· ||| 0x80 >>> (j % 8).toUInt8)) n
      fun p => f p || p == j := by
  have hlt : j / 8 < bits.length := by have := h.length; omega
  refine ⟨by simp [h.length], fun p => ?_⟩
  rw [bitAt_modify_or hlt, h.bitAt_eq,
    testMsb_bit (Nat.mod_lt p (by norm_num)) (Nat.mod_lt j (by norm_num))]
  by_cases hpj : p = j
  · subst hpj
    simp [hj]
  · have hne : (p / 8 == j / 8 && p % 8 == j % 8) = false := by
      simp only [Bool.and_eq_false_iff, beq_eq_false_iff_ne]
      omega
    by_cases hp : p < n <;> simp [hne, hpj, hp]

/-! ## Bytes read as a big-endian number -/

/-- The bytes as a big-endian number, as `big.Int.SetBytes` reads them. -/
def ofBytesBE (b : List UInt8) : Nat := b.foldl (fun acc x => acc * 256 + x.toNat) 0

theorem ofBytesBE_append_singleton (b : List UInt8) (x : UInt8) :
    ofBytesBE (b ++ [x]) = 2 ^ 8 * ofBytesBE b + x.toNat := by
  simp only [ofBytesBE, List.foldl_concat]
  ring

theorem testBit_ofBytesBE (b : List UInt8) {i : Nat} (hi : i < 8 * b.length) :
    (ofBytesBE b).testBit i = (b.getD (b.length - 1 - i / 8) 0).toNat.testBit (i % 8) := by
  induction b using List.reverseRecOn generalizing i with
  | nil => simp at hi
  | append_singleton b x ih =>
    rw [ofBytesBE_append_singleton, Nat.testBit_two_pow_mul_add _ (UInt8.toNat_lt x)]
    have hlen : (b ++ [x]).length = b.length + 1 := by simp
    split
    · -- `i < 8`: a bit of the last byte
      have hidx : (b ++ [x]).length - 1 - i / 8 = b.length := by rw [hlen]; omega
      rw [hidx, List.getD_append_right _ _ _ _ le_rfl, Nat.mod_eq_of_lt ‹i < 8›]
      simp
    · -- a bit of the bytes before it
      rw [hlen] at hi
      rw [ih (by omega)]
      have hidx : (b ++ [x]).length - 1 - i / 8 = b.length - 1 - (i - 8) / 8 := by
        rw [hlen]; omega
      have hlt : b.length - 1 - (i - 8) / 8 < b.length := by omega
      rw [hidx, List.getD_append _ _ _ _ hlt, show (i - 8) % 8 = i % 8 by omega]

@[simp] theorem ofBytesBE_nil : ofBytesBE [] = 0 := rfl

/-- `n` bytes hold a number below `2^(8n)`. -/
theorem ofBytesBE_lt (b : List UInt8) : ofBytesBE b < 2 ^ (8 * b.length) := by
  induction b using List.reverseRecOn with
  | nil => simp
  | append_singleton b x ih =>
    rw [ofBytesBE_append_singleton, List.length_append, List.length_singleton, Nat.mul_succ, pow_add]
    have hx := x.toNat_lt
    calc 2 ^ 8 * ofBytesBE b + x.toNat < 2 ^ 8 * (ofBytesBE b + 1) := by omega
      _ ≤ 2 ^ 8 * 2 ^ (8 * b.length) := Nat.mul_le_mul_left _ ih
      _ = 2 ^ (8 * b.length) * 2 ^ 8 := Nat.mul_comm _ _

/-- Leading zero bytes do not change the number. -/
theorem ofBytesBE_replicate_zero_append (k : Nat) (b : List UInt8) :
    ofBytesBE (List.replicate k 0 ++ b) = ofBytesBE b := by
  have hzero : ∀ k, ofBytesBE (List.replicate k 0) = 0 := by
    intro k
    induction k with
    | zero => rfl
    | succ k ih => rw [List.replicate_succ', ofBytesBE_append_singleton, ih]; rfl
  induction b using List.reverseRecOn with
  | nil => simpa using hzero k
  | append_singleton b x ih =>
    rw [← List.append_assoc, ofBytesBE_append_singleton, ofBytesBE_append_singleton, ih]

/-- Byte strings of one length are told apart by their number. -/
theorem ofBytesBE_injective {a b : List UInt8} (hl : a.length = b.length)
    (h : ofBytesBE a = ofBytesBE b) : a = b := by
  induction a using List.reverseRecOn generalizing b with
  | nil => exact (List.length_eq_zero_iff.mp hl.symm).symm
  | append_singleton a x ih =>
    obtain ⟨b', y, rfl⟩ : ∃ b' y, b = b' ++ [y] := by
      have hne : b ≠ [] := by rintro rfl; simp at hl
      exact ⟨b.dropLast, b.getLast hne, (List.dropLast_append_getLast hne).symm⟩
    rw [ofBytesBE_append_singleton, ofBytesBE_append_singleton] at h
    -- the last bytes are the numbers' residues mod 256, the rest their quotients
    have hx := x.toNat_lt
    have hy := y.toNat_lt
    have hxy : x.toNat = y.toNat := by omega
    have hab : ofBytesBE a = ofBytesBE b' := by omega
    simp only [List.length_append, List.length_singleton, Nat.add_right_cancel_iff] at hl
    rw [ih hl hab, UInt8.toNat_inj.mp hxy]

/-- The first byte weighs `2^8` for every byte after it. -/
theorem ofBytesBE_cons (x : UInt8) (b : List UInt8) :
    ofBytesBE (x :: b) = x.toNat * 2 ^ (8 * b.length) + ofBytesBE b := by
  induction b using List.reverseRecOn with
  | nil => simp [ofBytesBE]
  | append_singleton b y ih =>
    rw [← List.cons_append, ofBytesBE_append_singleton, ofBytesBE_append_singleton, ih,
      List.length_append, List.length_singleton, Nat.mul_succ, pow_add]
    ring

/-- Big-endian numbers of one length compare as their first bytes do, and
as the rest when the first bytes agree. -/
theorem ofBytesBE_cons_lt_cons_iff {x y : UInt8} {b c : List UInt8} (hl : b.length = c.length) :
    ofBytesBE (x :: b) < ofBytesBE (y :: c) ↔ x < y ∨ x = y ∧ ofBytesBE b < ofBytesBE c := by
  rw [ofBytesBE_cons, ofBytesBE_cons, ← hl, UInt8.lt_iff_toNat_lt, ← UInt8.toNat_inj]
  have hb := ofBytesBE_lt b
  have hc := ofBytesBE_lt c
  rw [← hl] at hc
  set P := 2 ^ (8 * b.length)
  rcases lt_trichotomy x.toNat y.toNat with hxy | hxy | hxy
  · -- the first bytes decide: the rest is below one unit of the first
    have : x.toNat * P + ofBytesBE b < y.toNat * P := by
      calc x.toNat * P + ofBytesBE b < (x.toNat + 1) * P := by rw [Nat.succ_mul]; omega
        _ ≤ y.toNat * P := Nat.mul_le_mul_right _ hxy
    constructor
    · intro _; exact .inl hxy
    · intro _; omega
  · rw [hxy]
    constructor
    · intro h; exact .inr ⟨rfl, by omega⟩
    · rintro (h | ⟨-, h⟩) <;> omega
  · have : y.toNat * P + ofBytesBE c < x.toNat * P := by
      calc y.toNat * P + ofBytesBE c < (y.toNat + 1) * P := by rw [Nat.succ_mul]; omega
        _ ≤ x.toNat * P := Nat.mul_le_mul_right _ hxy
    constructor
    · intro h; omega
    · rintro (h | ⟨h, -⟩) <;> omega

/-- The shortest big-endian bytes of `n`, as `big.Int.Bytes` gives them:
none for zero. -/
def toBytesBE (n : Nat) : List UInt8 :=
  if n = 0 then [] else toBytesBE (n / 256) ++ [(n % 256).toUInt8]

theorem ofBytesBE_toBytesBE (n : Nat) : ofBytesBE (toBytesBE n) = n := by
  induction n using toBytesBE.induct with
  | case1 => simp [toBytesBE]
  | case2 n hn ih =>
    rw [toBytesBE, if_neg hn, ofBytesBE_append_singleton, ih]
    have hlt : n % 256 < 256 := Nat.mod_lt n (by norm_num)
    simp [Nat.toUInt8, Nat.mod_eq_of_lt hlt]
    omega

theorem length_toBytesBE_le {n k : Nat} (h : n < 2 ^ (8 * k)) : (toBytesBE n).length ≤ k := by
  induction n using toBytesBE.induct generalizing k with
  | case1 => simp [toBytesBE]
  | case2 n hn ih =>
    rw [toBytesBE, if_neg hn, List.length_append, List.length_singleton]
    obtain _ | k := k
    · simp at h; omega
    · have hk : n / 256 < 2 ^ (8 * k) := by
        rw [Nat.div_lt_iff_lt_mul (by norm_num)]
        calc n < 2 ^ (8 * (k + 1)) := h
          _ = 2 ^ (8 * k) * 256 := by rw [Nat.mul_succ, pow_add]; norm_num
      have := ih hk
      omega

/-- The shortest bytes of a number read from `b`, padded in front with zeros
to the length of `b`, are `b`. -/
theorem replicate_append_toBytesBE_ofBytesBE (b : List UInt8) :
    List.replicate (b.length - (toBytesBE (ofBytesBE b)).length) 0 ++ toBytesBE (ofBytesBE b) = b := by
  have hlen := length_toBytesBE_le (ofBytesBE_lt b)
  apply ofBytesBE_injective
  · rw [List.length_append, List.length_replicate]
    omega
  · rw [ofBytesBE_replicate_zero_append, ofBytesBE_toBytesBE]

/-! ## Or-folds, bit by bit -/

/-- A fold whose every step or-s bits into the accumulator holds, at each
position, the starting bit or one of the bits added. -/
theorem testBit_foldl_of_step {α : Type} (step : Nat → α → Nat) (P : α → Nat → Bool)
    (hstep : ∀ acc x n, (step acc x).testBit n = (acc.testBit n || P x n))
    (l : List α) (a n : Nat) :
    (l.foldl step a).testBit n = (a.testBit n || l.any fun x => P x n) := by
  induction l generalizing a with
  | nil => simp
  | cons x l ih => rw [List.foldl_cons, ih, hstep, List.any_cons, Bool.or_assoc]

end ByteBits
