import Mathlib
import Btp.Lib.ByteBits

/-!
# ABI types, values and words

`Type` of `accounts/abi/type.go`, as `NewType` builds it: its `T` is the
constructor, with the element of slices and arrays, the size of integers,
arrays and fixed bytes, and the members of tuples. `isDynamicType`,
`getTypeSize` and `requiresLengthPrefix` are as in the source.

A Go value the codec packs or unpacks is a `Value`: integers with the
`reflect` kind of their Go type (`reflectIntKindAndType`), booleans, strings,
byte slices, byte arrays (addresses, fixed bytes, functions), slices and
arrays of values, and structs by the position of their fields. Which values
are of an ABI type is `HasType`.

The 32-byte words of the encoding: `U256` of an integer (two's complement
modulo `2^256`, big-endian), `big.Int.SetBytes` as `bigEndian`, and the
padding of `common.RightPadBytes` and `LeftPadBytes`.
-/

namespace Btp.Abi

/-- The integer kinds of `reflect` that `reflectIntKindAndType` picks; `Ptr` is
`*big.Int`. -/
inductive IntKind
  | Uint8 | Uint16 | Uint32 | Uint64 | Int8 | Int16 | Int32 | Int64 | Ptr
  deriving DecidableEq, Repr

/-- The `reflect.Kind`s the type checks compare. -/
inductive Kind
  | Int (k : IntKind)
  | Bool
  | String
  | Slice
  | Array
  | Struct
  deriving DecidableEq, Repr

/-- `reflectIntKindAndType`, its kind. -/
def reflectIntKind (unsigned : Bool) (size : Nat) : IntKind :=
  match size with
  | 8 => if unsigned then .Uint8 else .Int8
  | 16 => if unsigned then .Uint16 else .Int16
  | 32 => if unsigned then .Uint32 else .Int32
  | 64 => if unsigned then .Uint64 else .Int64
  | _ => .Ptr

/-- `Type`, by its `T`. `HashTy` and `FixedPointTy`, which `NewType` never
builds, are left out. -/
inductive AbiType
  | IntTy (size : Nat)
  | UintTy (size : Nat)
  | BoolTy
  | StringTy
  | SliceTy (elem : AbiType)
  | ArrayTy (elem : AbiType) (size : Nat)
  | TupleTy (elems : List AbiType)
  | AddressTy
  | FixedBytesTy (size : Nat)
  | BytesTy
  | FunctionTy
  deriving Repr

namespace AbiType

/-- The `Kind` field `NewType` sets. -/
def kind : AbiType → Kind
  | IntTy size => .Int (reflectIntKind false size)
  | UintTy size => .Int (reflectIntKind true size)
  | BoolTy => .Bool
  | StringTy => .String
  | SliceTy _ => .Slice
  | ArrayTy _ _ => .Array
  | TupleTy _ => .Struct
  | AddressTy => .Array
  | FixedBytesTy _ => .Array
  | BytesTy => .Slice
  | FunctionTy => .Array

/-- `Type.requiresLengthPrefix`. -/
def requiresLengthPrefix : AbiType → Bool
  | StringTy | BytesTy | SliceTy _ => true
  | _ => false

end AbiType

open AbiType

mutual
/-- `isDynamicType`. -/
def isDynamicType : AbiType → Bool
  | TupleTy elems => anyDynamic elems
  | StringTy | BytesTy | SliceTy _ => true
  | ArrayTy elem _ => isDynamicType elem
  | _ => false

/-- Whether some member of a tuple is dynamic. -/
def anyDynamic : List AbiType → Bool
  | [] => false
  | elem :: elems => isDynamicType elem || anyDynamic elems
end

mutual
/-- `getTypeSize`: the bytes a static type takes in the head, 32 for a
dynamic one. Nested arrays are measured recursively; any other static array
is counted 32 bytes an element. -/
def getTypeSize : AbiType → Nat
  | ArrayTy elem size =>
    if !isDynamicType elem then
      match elem with
      | ArrayTy _ _ => size * getTypeSize elem
      | _ => size * 32
    else 32
  | TupleTy elems => if !anyDynamic elems then sumTypeSize elems else 32
  | _ => 32

/-- The sum of `getTypeSize` over the members of a tuple. -/
def sumTypeSize : List AbiType → Nat
  | [] => 0
  | elem :: elems => getTypeSize elem + sumTypeSize elems
end

/-! ## What a static type takes in the head -/

mutual
/-- The bytes the encoding of a static type takes, and 32, an offset, for a
dynamic one: what `getTypeSize` says it returns. -/
def headSize : AbiType → Nat
  | ArrayTy elem size => if isDynamicType elem then 32 else size * headSize elem
  | TupleTy elems => if anyDynamic elems then 32 else sumHeadSize elems
  | _ => 32

/-- The sum of `headSize` over the members of a tuple. -/
def sumHeadSize : List AbiType → Nat
  | [] => 0
  | elem :: elems => headSize elem + sumHeadSize elems
end

/-- Whether the type is a tuple. -/
def AbiType.isTuple : AbiType → Bool
  | TupleTy _ => true
  | _ => false

mutual
/-- No static array in the type has tuples as elements. -/
def noTupleArray : AbiType → Bool
  | ArrayTy elem _ => (isDynamicType elem || !elem.isTuple) && noTupleArray elem
  | SliceTy elem => noTupleArray elem
  | TupleTy elems => allNoTupleArray elems
  | _ => true

/-- `noTupleArray` of every member. -/
def allNoTupleArray : List AbiType → Bool
  | [] => true
  | elem :: elems => noTupleArray elem && allNoTupleArray elems
end

/-- A static type that is neither an array nor a tuple is one word. -/
theorem headSize_of_static_elementary {t : AbiType} (hd : isDynamicType t = false)
    (ha : ∀ elem size, t ≠ ArrayTy elem size) (ht : t.isTuple = false) : headSize t = 32 := by
  cases t with
  | ArrayTy elem size => exact absurd rfl (ha elem size)
  | TupleTy elems => simp [AbiType.isTuple] at ht
  | _ => rfl

mutual
/-- `getTypeSize` is the head size of every type without static arrays of
tuples: nested arrays are measured recursively, and any other static
element is one word. -/
theorem getTypeSize_eq_headSize : (t : AbiType) → noTupleArray t = true →
    getTypeSize t = headSize t
  | ArrayTy elem size, h => by
    simp only [noTupleArray, Bool.and_eq_true, Bool.or_eq_true, Bool.not_eq_true'] at h
    obtain ⟨hshape, helem⟩ := h
    by_cases hd : isDynamicType elem
    case pos => simp [getTypeSize, headSize, hd]
    case neg =>
      have hd' : isDynamicType elem = false := by simpa using hd
      have hnt : elem.isTuple = false := by simpa [hd'] using hshape
      cases elem with
      | ArrayTy e k =>
        -- a nested array: both sides scale the inner array's size
        have hin := getTypeSize_eq_headSize (ArrayTy e k) helem
        rw [getTypeSize.eq_def, headSize.eq_def]
        simp only [hd', Bool.not_false, if_true, Bool.false_eq_true, if_false, hin]
      | TupleTy elems => simp [AbiType.isTuple] at hnt
      | _ => simp_all [getTypeSize, headSize]
  | TupleTy elems, h => by
    have hall := sumTypeSize_eq_sumHeadSize elems h
    cases hdyn : anyDynamic elems <;> simp [getTypeSize, headSize, hdyn, hall]
  | IntTy _, _ | UintTy _, _ | BoolTy, _ | StringTy, _ | SliceTy _, _ | AddressTy, _
  | FixedBytesTy _, _ | BytesTy, _ | FunctionTy, _ => rfl

theorem sumTypeSize_eq_sumHeadSize : (elems : List AbiType) → allNoTupleArray elems = true →
    sumTypeSize elems = sumHeadSize elems
  | [], _ => rfl
  | elem :: elems, h => by
    simp only [allNoTupleArray, Bool.and_eq_true] at h
    rw [sumTypeSize, sumHeadSize, getTypeSize_eq_headSize elem h.1,
      sumTypeSize_eq_sumHeadSize elems h.2]
end

/-- A Go value of an ABI type. -/
inductive Value
  /-- An integer of the Go type `reflectIntKindAndType` gives. -/
  | int (kind : IntKind) (v : Int)
  | bool (b : Bool)
  | string (s : List UInt8)
  /-- A `[]byte`. -/
  | bytes (b : List UInt8)
  /-- A `[N]byte`: an address, fixed bytes or a function. -/
  | byteArray (b : List UInt8)
  /-- A slice or an array. -/
  | array (vs : List Value)
  /-- A struct, by the position of its fields. -/
  | tuple (vs : List Value)
  deriving Repr

/-- `reflect.Value.Kind`; slices and arrays of values count as arrays. -/
def Value.kind : Value → Kind
  | .int k _ => .Int k
  | .bool _ => .Bool
  | .string _ => .String
  | .bytes _ => .Slice
  | .byteArray _ => .Array
  | .array _ => .Array
  | .tuple _ => .Struct

mutual
/-- Decidable equality of values, member by member. -/
def Value.decEq : (a b : Value) → Decidable (a = b)
  | .int k v, .int k' v' =>
    if h : k = k' ∧ v = v' then isTrue (by rw [h.1, h.2]) else isFalse (by simp_all)
  | .bool b, .bool b' => if h : b = b' then isTrue (by rw [h]) else isFalse (by simp_all)
  | .string s, .string s' => if h : s = s' then isTrue (by rw [h]) else isFalse (by simp_all)
  | .bytes s, .bytes s' => if h : s = s' then isTrue (by rw [h]) else isFalse (by simp_all)
  | .byteArray s, .byteArray s' => if h : s = s' then isTrue (by rw [h]) else isFalse (by simp_all)
  | .array vs, .array vs' =>
    match Value.decEqList vs vs' with
    | isTrue h => isTrue (by rw [h])
    | isFalse h => isFalse (by simp_all)
  | .tuple vs, .tuple vs' =>
    match Value.decEqList vs vs' with
    | isTrue h => isTrue (by rw [h])
    | isFalse h => isFalse (by simp_all)
  | .int _ _, .bool _ | .int _ _, .string _ | .int _ _, .bytes _ | .int _ _, .byteArray _
  | .int _ _, .array _ | .int _ _, .tuple _ => isFalse (by simp)
  | .bool _, .int _ _ | .bool _, .string _ | .bool _, .bytes _ | .bool _, .byteArray _
  | .bool _, .array _ | .bool _, .tuple _ => isFalse (by simp)
  | .string _, .int _ _ | .string _, .bool _ | .string _, .bytes _ | .string _, .byteArray _
  | .string _, .array _ | .string _, .tuple _ => isFalse (by simp)
  | .bytes _, .int _ _ | .bytes _, .bool _ | .bytes _, .string _ | .bytes _, .byteArray _
  | .bytes _, .array _ | .bytes _, .tuple _ => isFalse (by simp)
  | .byteArray _, .int _ _ | .byteArray _, .bool _ | .byteArray _, .string _
  | .byteArray _, .bytes _ | .byteArray _, .array _ | .byteArray _, .tuple _ => isFalse (by simp)
  | .array _, .int _ _ | .array _, .bool _ | .array _, .string _ | .array _, .bytes _
  | .array _, .byteArray _ | .array _, .tuple _ => isFalse (by simp)
  | .tuple _, .int _ _ | .tuple _, .bool _ | .tuple _, .string _ | .tuple _, .bytes _
  | .tuple _, .byteArray _ | .tuple _, .array _ => isFalse (by simp)

/-- Decidable equality of lists of values. -/
def Value.decEqList : (as bs : List Value) → Decidable (as = bs)
  | [], [] => isTrue rfl
  | [], _ :: _ => isFalse (by simp)
  | _ :: _, [] => isFalse (by simp)
  | a :: as, b :: bs =>
    match Value.decEq a b, Value.decEqList as bs with
    | isTrue h, isTrue h' => isTrue (by rw [h, h'])
    | isFalse h, _ => isFalse (by simp_all)
    | _, isFalse h' => isFalse (by simp_all)
end

instance : DecidableEq Value := Value.decEq

/-! ## Words -/

/-- The `n`-byte big-endian encoding of `x`, modulo `256 ^ n`:
`math.PaddedBigBytes`. -/
def bigEndianBytes (n x : Nat) : List UInt8 :=
  (List.range n).map fun i => (x / 256 ^ (n - 1 - i) % 256).toUInt8

/-- `big.Int.SetBytes`, and `binary.BigEndian.UintN` of `N / 8` bytes. -/
def bigEndian (b : List UInt8) : Nat := b.foldl (fun acc x => acc * 256 + x.toNat) 0

/-- `U256`: the word of an integer, in two's complement modulo `2^256`. -/
def U256 (n : Int) : List UInt8 := bigEndianBytes 32 (n % 2 ^ 256).toNat

/-- `packNum` of a Go integer or `*big.Int`. -/
def packNum (n : Int) : List UInt8 := U256 n

/-- `common.RightPadBytes`: zeros after the bytes up to `l`. -/
def RightPadBytes (slice : List UInt8) (l : Nat) : List UInt8 :=
  if l ≤ slice.length then slice else slice ++ List.replicate (l - slice.length) 0

/-- `common.LeftPadBytes`: zeros before the bytes up to `l`. -/
def LeftPadBytes (slice : List UInt8) (l : Nat) : List UInt8 :=
  if l ≤ slice.length then slice else List.replicate (l - slice.length) 0 ++ slice

@[simp] theorem length_bigEndianBytes (n x : Nat) : (bigEndianBytes n x).length = n := by
  simp [bigEndianBytes]

@[simp] theorem length_packNum (n : Int) : (packNum n).length = 32 := by
  simp [packNum, U256]

theorem bigEndian_eq_ofBytesBE : bigEndian = ByteBits.ofBytesBE := rfl

/-- The last byte of an `n + 1`-byte word is the number's lowest. -/
theorem bigEndianBytes_succ (n x : Nat) :
    bigEndianBytes (n + 1) x = bigEndianBytes n (x / 256) ++ [(x % 256).toUInt8] := by
  unfold bigEndianBytes
  rw [List.range_succ, List.map_append, List.map_singleton,
    show n + 1 - 1 - n = 0 by omega, pow_zero, Nat.div_one]
  congr 1
  refine List.map_congr_left fun i hi => ?_
  rw [List.mem_range] at hi
  rw [Nat.div_div_eq_div_mul, show n + 1 - 1 - i = n - 1 - i + 1 by omega, pow_succ,
    Nat.mul_comm]

/-- A word reads back as its number modulo the width. -/
theorem bigEndian_bigEndianBytes (n x : Nat) : bigEndian (bigEndianBytes n x) = x % 256 ^ n := by
  induction n generalizing x with
  | zero => simp [bigEndianBytes, bigEndian, Nat.mod_one]
  | succ n ih =>
    rw [bigEndianBytes_succ, bigEndian_eq_ofBytesBE, ByteBits.ofBytesBE_append_singleton,
      ← bigEndian_eq_ofBytesBE, ih]
    have hlt : x % 256 < 256 := Nat.mod_lt x (by norm_num)
    have hbyte : ((x % 256).toUInt8).toNat = x % 256 := by
      simp only [Nat.toUInt8_eq]
      exact Nat.mod_eq_of_lt hlt
    rw [hbyte, show 256 ^ (n + 1) = 256 * 256 ^ n by ring, Nat.mod_mul]
    ring

/-! ## Values of a type -/

/-- The integers of an ABI integer type. -/
def inRange (unsigned : Bool) (size : Nat) (v : Int) : Prop :=
  if unsigned then 0 ≤ v ∧ v < 2 ^ size else -2 ^ (size - 1) ≤ v ∧ v < 2 ^ (size - 1)

instance (unsigned : Bool) (size : Nat) (v : Int) : Decidable (inRange unsigned size v) := by
  unfold inRange
  exact inferInstance

mutual
/-- The Go values of an ABI type, with the integers in the range of their ABI
type. -/
def HasType : AbiType → Value → Prop
  | IntTy size, .int k v => k = reflectIntKind false size ∧ inRange false size v
  | UintTy size, .int k v => k = reflectIntKind true size ∧ inRange true size v
  | BoolTy, .bool _ => True
  | StringTy, .string _ => True
  | SliceTy elem, .array vs => AllHaveType elem vs
  | ArrayTy elem size, .array vs => vs.length = size ∧ AllHaveType elem vs
  | TupleTy elems, .tuple vs => MembersHaveType elems vs
  | AddressTy, .byteArray b => b.length = 20
  | FixedBytesTy size, .byteArray b => b.length = size
  | BytesTy, .bytes _ => True
  | FunctionTy, .byteArray b => b.length = 24
  | _, _ => False

/-- Every value of a list is of the type. -/
def AllHaveType (elem : AbiType) : List Value → Prop
  | [] => True
  | v :: vs => HasType elem v ∧ AllHaveType elem vs

/-- The members of a tuple value are of the member types, one for one. -/
def MembersHaveType : List AbiType → List Value → Prop
  | [], [] => True
  | elem :: elems, v :: vs => HasType elem v ∧ MembersHaveType elems vs
  | _, _ => False
end

end Btp.Abi
