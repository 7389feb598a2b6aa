import Mathlib

/-!
# RLP values

The recursive length prefix format at the level of the values it encodes: a
byte string, or a list of values. Decoding is taken to invert encoding on
canonical input, so a decoder reading the next value of a stream is modelled
as reading that value; of its bytes only their number is kept, which is what a
size limit reads. What a typed decoder checks on a value (a list where a string
is expected, an integer with a leading zero or of more than eight bytes) is
kept, with the errors it returns.
-/

namespace Rlp

/-- An RLP value. -/
inductive Value where
  | str (b : List UInt8)
  | list (l : List Value)
deriving Repr, Inhabited

/-- The decoding errors a value can meet at the level of values. -/
inductive Error where
  | EOL
  | ErrExpectedString
  | ErrExpectedList
  | ErrCanonInt
  | errUintOverflow
deriving DecidableEq, Repr

/-! ## Sizes -/

/-- The big-endian bytes of `i` without leading zeros (`putint`): the payload
of an integer, and of the length in a long header. -/
def putint (i : Nat) : List UInt8 := ((Nat.digits 256 i).map Nat.toUInt8).reverse

/-- The size of the header in front of a payload of `size` bytes. -/
def headsize (size : Nat) : Nat := if size < 56 then 1 else 1 + (putint size).length

/-- The size of the encoding of a byte string: a single byte below `0x80` is
its own encoding. -/
def strSize (b : List UInt8) : Nat :=
  match b with
  | [x] => if x ≤ 0x7F then 1 else headsize 1 + 1
  | b => headsize b.length + b.length

mutual
/-- The number of bytes of the encoding of a value. -/
def Value.size : Value → Nat
  | .str b => strSize b
  | .list l => headsize (Value.listSize l) + Value.listSize l

/-- The number of bytes of the encodings of a list's elements, its payload. -/
def Value.listSize : List Value → Nat
  | [] => 0
  | v :: l => v.size + Value.listSize l
end

/-! ## Integers and strings -/

/-- The value of an unsigned integer. -/
def encodeUint (n : UInt64) : Value := .str (putint n.toNat)

/-- Decoding an unsigned 64-bit integer: a byte string of at most eight bytes,
big-endian, without leading zero (`Stream.uint(64)`; the canonical single
byte `0x00` meets the same check). -/
def decodeUint : Value → Except Error UInt64
  | .list _ => .error .ErrExpectedString
  | .str b =>
    if b.length > 8 then .error .errUintOverflow
    else if b.head? = some 0 then .error .ErrCanonInt
    else .ok (UInt64.ofNat (Nat.ofDigits 256 (b.reverse.map UInt8.toNat)))

/-- Decoding a byte slice or a string (`Stream.Bytes`). -/
def decodeBytes : Value → Except Error (List UInt8)
  | .str b => .ok b
  | .list _ => .error .ErrExpectedString

@[simp] theorem decodeBytes_str (b : List UInt8) : decodeBytes (.str b) = .ok b := rfl

theorem decodeBytes_eq_ok {v : Value} {b : List UInt8} : decodeBytes v = .ok b ↔ v = .str b := by
  cases v <;> simp [decodeBytes]

theorem toNat_toUInt8_of_lt {d : Nat} (h : d < 256) : (Nat.toUInt8 d).toNat = d := by
  simp only [Nat.toUInt8_eq]
  exact Nat.mod_eq_of_lt h

/-- The digits `putint` writes read back to the integer. -/
theorem ofDigits_putint (i : Nat) :
    Nat.ofDigits 256 ((putint i).reverse.map UInt8.toNat) = i := by
  have hdig : ((Nat.digits 256 i).map Nat.toUInt8).map UInt8.toNat = Nat.digits 256 i := by
    rw [List.map_map]
    conv_rhs => rw [← List.map_id (Nat.digits 256 i)]
    refine List.map_congr_left fun d hd => ?_
    exact toNat_toUInt8_of_lt (Nat.digits_lt_base (by norm_num) hd)
  rw [putint, List.reverse_reverse, hdig, Nat.ofDigits_digits]

theorem length_putint_le {i k : Nat} (h : i < 256 ^ k) : (putint i).length ≤ k := by
  rw [putint, List.length_reverse, List.length_map]
  exact (Nat.digits_length_le_iff (by norm_num) i).2 h

/-- `putint` writes no leading zero. -/
theorem head_putint_ne_zero (i : Nat) : (putint i).head? ≠ some 0 := by
  rcases Nat.eq_zero_or_pos i with rfl | hi
  · simp [putint]
  · have hne : Nat.digits 256 i ≠ [] := Nat.digits_ne_nil_iff_ne_zero.2 hi.ne'
    have hlast := Nat.getLast_digit_ne_zero 256 hi.ne'
    have hlt := Nat.digits_lt_base (b := 256) (by norm_num) (List.getLast_mem hne)
    rw [putint, List.head?_reverse, List.getLast?_map, List.getLast?_eq_some_getLast hne]
    intro h
    have h0 : Nat.toUInt8 ((Nat.digits 256 i).getLast hne) = 0 := Option.some.inj h
    have := congrArg UInt8.toNat h0
    rw [toNat_toUInt8_of_lt hlt] at this
    exact hlast this

/-- An integer decodes to itself. -/
theorem decodeUint_encodeUint (n : UInt64) : decodeUint (encodeUint n) = .ok n := by
  have hlen : (putint n.toNat).length ≤ 8 :=
    length_putint_le (lt_of_lt_of_eq n.toNat_lt (by norm_num))
  simp only [encodeUint, decodeUint, ofDigits_putint, UInt64.ofNat_toNat,
    if_neg (not_lt.2 hlen), if_neg (head_putint_ne_zero _)]

end Rlp
