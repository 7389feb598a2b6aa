import Mathlib
import Btp.Common.Types
import Btp.Accounts.Abi.Codec
import Btp.Lib.ByteBits

/-!
# Event topics

`makeTopics` and `parseTopics` of `accounts/abi/bind/topics.go`. An indexed
event argument is logged as a topic, a 32-byte word: for a static elementary
type, the word `Arguments.Pack` writes for it; for a dynamic one, the
Keccak-256 hash of its encoding. `makeTopics` builds the topics of a filter
query from Go values, switching on their Go type; `parseTopics` fills the
fields of an event struct from a log's topics, switching on the fields' Go
type. Keccak-256 is a parameter.

Go values are `GoValue`s here: the types the two functions tell apart, with
`common.Hash` and `common.Address` of 32 and 20 bytes. An event struct is the
list of its fields' values, one for each indexed argument in order.

For an integer `makeTopics` writes `big.Int.Bytes`, the magnitude, so the
topic of a negative integer is the word of its absolute value and not the
two's-complement word a contract logs (`makeTopics_drops_sign`); for
non-negative integers and the other static types the topics are the packed
words (`makeTopic_bindValue`). `parseTopics` reads the packed word of every
Go integer back, negative ones included, but a `*big.Int` field is filled with
the word read as unsigned (`parseTopic_Pack`).
-/

namespace Btp.Abi

open AbiType ByteBits

/-- A Go value given to `makeTopics` or held by an event field, by the Go types
the topic code tells apart. -/
inductive GoValue
  | Hash (b : List UInt8)
  | Address (b : List UInt8)
  | Bool (b : Bool)
  /-- `int8` to `int64`, `uint8` to `uint64`, and `*big.Int` (`Ptr`). -/
  | Int (kind : IntKind) (n : Int)
  | String (s : List UInt8)
  | ByteSlice (b : List UInt8)
  /-- A `[N]byte` other than a hash or an address. -/
  | ByteArray (b : List UInt8)
  /-- A value of any other type. -/
  | Other
  deriving DecidableEq, Repr

/-- The errors of `makeTopics` and `parseTopics`. -/
inductive TopicError
  /-- "unsupported indexed type: %T" and "unsupported indexed type: %v". -/
  | unsupportedIndexedType
  /-- "topic/field count mismatch". -/
  | countMismatch
  /-- "non-indexed field in topic reconstruction". -/
  | nonIndexedField
  /-- A runtime panic: a slice of the topic out of range, or `reflect.Copy`
  into a field that is not a slice or an array. -/
  | panic
  deriving DecidableEq, Repr

/-! ## Building topics -/

/-- `copy(topic[common.HashLength-len(blob):], blob)`: the bytes at the end of
an otherwise zero topic; more than `HashLength` of them slice out of range. -/
def alignRight (blob : List UInt8) : Except TopicError (List UInt8) :=
  if blob.length ≤ HashLength then pure (List.replicate (HashLength - blob.length) 0 ++ blob)
  else throw .panic

/-- The topic of one filter rule. Every integer is written through
`big.Int.Bytes`: `big.NewInt(int64(rule))` for the signed kinds,
`SetUint64` for the unsigned ones, the `*big.Int` itself. -/
def makeTopic (keccak : List UInt8 → List UInt8) : GoValue → Except TopicError (List UInt8)
  | .Hash h => pure h
  | .Address a => pure (List.replicate (HashLength - AddressLength) 0 ++ a)
  | .Int _ n => alignRight (toBytesBE n.natAbs)
  | .Bool b => pure (List.replicate (HashLength - 1) 0 ++ [if b then 1 else 0])
  | .String s => pure (keccak s)
  | .ByteSlice b => pure (keccak b)
  | .ByteArray b =>
    -- reflect.Copy(reflect.ValueOf(topic[:val.Len()]), val)
    if b.length ≤ HashLength then pure (b ++ List.replicate (HashLength - b.length) 0)
    else throw .panic
  | .Other => throw .unsupportedIndexedType

/-- `makeTopics`: the topics of each filter of the query, rule by rule. -/
def makeTopics (keccak : List UInt8 → List UInt8) (query : List (List GoValue)) :
    Except TopicError (List (List (List UInt8))) :=
  query.mapM fun filter => filter.mapM (makeTopic keccak)

/-! ## Reading topics back -/

/-- `big.Int.Int64` of a non-negative number: its low 64 bits as an `int64`. -/
def bigInt64 (num : Nat) : Int := toSigned 64 (num % 2 ^ 64)

/-- `big.Int.Uint64` of a non-negative number: its low 64 bits. -/
def bigUint64 (num : Nat) : Nat := num % 2 ^ 64

/-- A Go conversion to a signed integer of `bits` bits: the low bits, read as
two's complement. -/
def truncSigned (bits : Nat) (x : Int) : Int := toSigned bits (x % 2 ^ bits).toNat

/-- `reflect.Copy` of `src` into a byte array or slice field: as many bytes
as both have. -/
def copyField (field : GoValue) (src : List UInt8) : Except TopicError GoValue :=
  match field with
  | .ByteArray p => pure (.ByteArray (src.take p.length ++ p.drop src.length))
  | .ByteSlice p => pure (.ByteSlice (src.take p.length ++ p.drop src.length))
  | _ => throw .panic

/-- What `parseTopics` leaves in a field holding `field` from the topic of an
indexed argument of type `t`: by the field's kind, then its type, then the
argument's type. A `bool` field is only ever set to `true`. -/
def parseTopic (t : AbiType) (field : GoValue) (topic : List UInt8) : Except TopicError GoValue :=
  -- new(big.Int).SetBytes(topics[0][:])
  let num := bigEndian topic
  match field with
  | .Bool _ => pure (if topic.getD (HashLength - 1) 0 = 1 then .Bool true else field)
  | .Int .Int8 _ => pure (.Int .Int8 (truncSigned 8 (bigInt64 num)))
  | .Int .Int16 _ => pure (.Int .Int16 (truncSigned 16 (bigInt64 num)))
  | .Int .Int32 _ => pure (.Int .Int32 (truncSigned 32 (bigInt64 num)))
  | .Int .Int64 _ => pure (.Int .Int64 (bigInt64 num))
  | .Int .Uint8 _ => pure (.Int .Uint8 (bigUint64 num % 2 ^ 8))
  | .Int .Uint16 _ => pure (.Int .Uint16 (bigUint64 num % 2 ^ 16))
  | .Int .Uint32 _ => pure (.Int .Uint32 (bigUint64 num % 2 ^ 32))
  | .Int .Uint64 _ => pure (.Int .Uint64 (bigUint64 num))
  | .Hash _ => pure (.Hash topic)
  | .Address _ => pure (.Address (topic.drop (HashLength - AddressLength)))
  | .Int .Ptr _ => pure (.Int .Ptr num)
  | _ =>
    match t with
    | FixedBytesTy size =>
      if size ≤ HashLength then copyField field (topic.take size) else throw .panic
    | _ => throw .unsupportedIndexedType

/-- `parseTopics`: the fields of `out`, one for each of `fields`, filled from
the topics in order. -/
def parseTopics (out : List GoValue) (fields : List Argument) (topics : List (List UInt8)) :
    Except TopicError (List GoValue) :=
  if fields.length ≠ topics.length then throw .countMismatch
  else (fields.zip (out.zip topics)).mapM fun (arg, field, topic) =>
    if !arg.Indexed then throw .nonIndexedField else parseTopic arg.Typ field topic

/-! ## The Go values of indexed arguments -/

/-- The static elementary types whose values are logged as their words:
integers of 8 to 256 bits, booleans, addresses and fixed bytes of at most 32. -/
def TopicType : AbiType → Prop
  | IntTy s | UintTy s => 8 ≤ s ∧ s ≤ 256
  | BoolTy | AddressTy => True
  | FixedBytesTy n => n ≤ 32
  | _ => False

/-- The Go value standing for the value `v` of an indexed argument of type `t`
in the bindings (`bindTopicTypeGo`): Go integers for `intN` and `uintN` of 8 to
64 bits and `*big.Int` for the other sizes, `common.Address`, `[N]byte`. -/
def bindValue : AbiType → Value → GoValue
  | IntTy _, .int k n | UintTy _, .int k n => .Int k n
  | BoolTy, .bool b => .Bool b
  | AddressTy, .byteArray b => .Address b
  | FixedBytesTy _, .byteArray b => .ByteArray b
  | _, _ => .Other

/-- The zero value of the field the bindings declare for an indexed argument
of type `t`, which `parseTopics` finds in a new event struct; the field of a
dynamic argument is a hash. -/
def zeroField : AbiType → GoValue
  | IntTy s => .Int (reflectIntKind false s) 0
  | UintTy s => .Int (reflectIntKind true s) 0
  | BoolTy => .Bool false
  | AddressTy => .Address (List.replicate AddressLength 0)
  | FixedBytesTy n => .ByteArray (List.replicate n 0)
  | FunctionTy => .ByteArray (List.replicate 24 0)
  | StringTy | BytesTy => .Hash (List.replicate HashLength 0)
  | _ => .Other

/-! ## Words -/

/-- A number below `2^256` written as `big.Int.Bytes` at the end of a zero
topic is its 32-byte word. -/
theorem alignRight_toBytesBE {x : Nat} (hx : x < 2 ^ 256) :
    alignRight (toBytesBE x) = .ok (bigEndianBytes 32 x) := by
  have hlen : (toBytesBE x).length ≤ 32 := length_toBytesBE_le (by simpa using hx)
  unfold alignRight HashLength
  rw [if_pos hlen]
  refine congrArg Except.ok (ofBytesBE_injective (by simp; omega) ?_)
  rw [ofBytesBE_replicate_zero_append, ofBytesBE_toBytesBE, ← bigEndian_eq_ofBytesBE,
    bigEndian_bigEndianBytes, Nat.mod_eq_of_lt (by simpa using hx)]

/-- The number in a packed word: the integer modulo `2^256`. -/
theorem bigEndian_packNum (n : Int) : (bigEndian (packNum n) : Int) = n % 2 ^ 256 := by
  have hlt : (n % 2 ^ 256).toNat < 256 ^ 32 := by omega
  rw [packNum, U256, bigEndian_bigEndianBytes, Nat.mod_eq_of_lt hlt]
  omega

/-- The packed word of a number that fits in 256 bits is its big-endian word. -/
theorem packNum_of_nonneg {n : Int} (h0 : 0 ≤ n) (h : n < 2 ^ 256) :
    packNum n = bigEndianBytes 32 n.natAbs := by
  rw [packNum, U256, Int.emod_eq_of_lt h0 h]
  congr 1
  omega

/-- `big.Int.Int64` keeps the number modulo `2^b` for `b ≤ 64`. -/
theorem bigInt64_emod {num b : Nat} (hb : b ≤ 64) : bigInt64 num % 2 ^ b = (num : Int) % 2 ^ b := by
  have hdvd : (2 : Int) ^ b ∣ 2 ^ 64 := pow_dvd_pow 2 hb
  have hcast : ((num % 2 ^ 64 : Nat) : Int) = (num : Int) % 2 ^ 64 := by push_cast; rfl
  unfold bigInt64 toSigned
  split
  · rw [hcast, Int.emod_emod_of_dvd _ hdvd]
  · rw [← Int.emod_emod_of_dvd _ hdvd, Int.sub_emod_right, hcast, Int.emod_emod_of_dvd _ hdvd,
      Int.emod_emod_of_dvd _ hdvd]

/-- Reading the low `b` bits of a number congruent to `n` modulo `2^b` as two's
complement gives `n` back when it fits in `b` bits. -/
theorem toSigned_of_emod {b : Nat} (hb : 0 < b) {n x : Int} (hx : x % 2 ^ b = n % 2 ^ b)
    (hl : -2 ^ (b - 1) ≤ n) (hu : n < 2 ^ (b - 1)) : toSigned b (x % 2 ^ b).toNat = n := by
  have hP : (2 : Int) ^ b = 2 * 2 ^ (b - 1) := by
    rw [← pow_succ']
    congr 1
    omega
  have hcast : ((2 ^ (b - 1) : Nat) : Int) = 2 ^ (b - 1) := by push_cast; rfl
  have hpos : (0 : Int) < 2 ^ (b - 1) := by positivity
  rw [hx]
  unfold toSigned
  by_cases hn : 0 ≤ n
  · have hmod : n % 2 ^ b = n := Int.emod_eq_of_lt hn (by rw [hP]; omega)
    have hlt : n.toNat < 2 ^ (b - 1) := by omega
    rw [hmod, if_pos hlt, Int.toNat_of_nonneg hn]
  · -- a negative number is held as itself plus `2^b`
    have hmod : n % 2 ^ b = n + 2 ^ b := by
      rw [Int.emod_eq_add_self_emod]
      exact Int.emod_eq_of_lt (by rw [hP]; omega) (by omega)
    have hge : ¬ (n + 2 ^ b).toNat < 2 ^ (b - 1) := by omega
    rw [hmod, if_neg hge, Int.toNat_of_nonneg (by rw [hP]; omega)]
    ring

/-- A Go integer of `b ≤ 64` bits converted from `big.Int.Int64` of a packed
word reads back the packed value when it fits. -/
theorem truncSigned_bigInt64_packNum {b : Nat} (hb : 0 < b) (hb64 : b ≤ 64) {n : Int}
    (hl : -2 ^ (b - 1) ≤ n) (hu : n < 2 ^ (b - 1)) :
    truncSigned b (bigInt64 (bigEndian (packNum n))) = n := by
  unfold truncSigned
  refine toSigned_of_emod hb ?_ hl hu
  rw [bigInt64_emod hb64, bigEndian_packNum,
    Int.emod_emod_of_dvd _ (pow_dvd_pow 2 (by omega : b ≤ 256))]

/-- `big.Int.Int64` of a packed word reads back a packed `int64`. -/
theorem bigInt64_packNum {n : Int} (hl : -2 ^ 63 ≤ n) (hu : n < 2 ^ 63) :
    bigInt64 (bigEndian (packNum n)) = n := by
  have hnat : bigEndian (packNum n) % 2 ^ 64 = (((bigEndian (packNum n) : Nat) : Int) % 2 ^ 64).toNat := by
    omega
  rw [bigInt64, hnat]
  refine toSigned_of_emod (by norm_num) ?_ hl hu
  rw [bigEndian_packNum, Int.emod_emod_of_dvd _ (pow_dvd_pow 2 (by norm_num : 64 ≤ 256))]

/-- The bound every integer of an ABI integer type of at most 256 bits is under. -/
theorem lt_of_inRange {unsigned : Bool} {s : Nat} {n : Int} (hs : s ≤ 256)
    (h : inRange unsigned s n) : n < 2 ^ 256 := by
  have hle : (2 : Int) ^ s ≤ 2 ^ 256 := pow_le_pow_right₀ (by norm_num) hs
  have hle' : (2 : Int) ^ (s - 1) ≤ 2 ^ s := pow_le_pow_right₀ (by norm_num) (by omega)
  cases unsigned <;> simp [inRange] at h <;> omega

theorem bigEndian_packNum_of_nonneg {n : Int} (h0 : 0 ≤ n) (h : n < 2 ^ 256) :
    (bigEndian (packNum n) : Int) = n := by
  rw [bigEndian_packNum, Int.emod_eq_of_lt h0 h]

/-! ## The packed word of an indexed argument -/

theorem isDynamicType_of_topicType {t : AbiType} (ht : TopicType t) : isDynamicType t = false := by
  cases t <;> simp_all [TopicType, isDynamicType]

/-- A value of a topic type passes `typeCheck`. -/
theorem typeCheck_of_topicType {t : AbiType} {v : Value} (ht : TopicType t) (hv : HasType t v) :
    typeCheck t v = .ok () := by
  cases t <;> cases v <;> simp only [TopicType, HasType] at ht hv
  case IntTy.int s k n | UintTy.int s k n =>
    obtain ⟨rfl, -⟩ := hv
    simp [typeCheck, AbiType.kind, Value.kind]
    rfl
  case FixedBytesTy.byteArray n b =>
    simp [typeCheck, AbiType.kind, Value.kind, Value.elems?, hv]
    rfl
  all_goals rfl

/-- `Pack` of a single static argument is the word `pack` writes for it. -/
theorem Pack_single {t : AbiType} (hs : isDynamicType t = false) (indexed : Bool) (v : Value) :
    Pack [⟨t, indexed⟩] [v] = pack t v := by
  unfold Pack
  cases hp : pack t v with
  | error e => simp [packTuple, hp]
  | ok w => simp [packTuple, hp, layout, hs]

/-- `pack` of an elementary type that passed `typeCheck` is `packElement`. -/
theorem pack_of_typeCheck {t : AbiType} {v : Value} (h : typeCheck t v = .ok ())
    (hslice : ∀ e, t ≠ SliceTy e) (harray : ∀ e n, t ≠ ArrayTy e n) (htuple : ∀ es, t ≠ TupleTy es) :
    pack t v = packElement t v := by
  -- the wildcard arm of the match in pack, under its three side conditions
  rw [pack, h]
  · rfl
  · exact hslice
  · exact harray
  · exact htuple

/-- The word `Pack` writes for one argument of a topic type. -/
theorem Pack_topic {t : AbiType} {v : Value} (ht : TopicType t) (hv : HasType t v) (indexed : Bool) :
    Pack [⟨t, indexed⟩] [v] = packElement t v := by
  rw [Pack_single (isDynamicType_of_topicType ht)]
  refine pack_of_typeCheck (typeCheck_of_topicType ht hv) ?_ ?_ ?_
  · rintro e rfl
    exact ht
  · rintro e n rfl
    exact ht
  · rintro es rfl
    exact ht

/-! ## Topics of queries -/

/-- A non-negative integer below `2^256` is queried by its packed word. -/
theorem makeTopic_int (keccak : List UInt8 → List UInt8) (k : IntKind) {n : Int} (h0 : 0 ≤ n)
    (h : n < 2 ^ 256) : makeTopic keccak (.Int k n) = .ok (packNum n) := by
  rw [makeTopic, alignRight_toBytesBE (by omega), packNum_of_nonneg h0 h]

theorem makeTopic_bindValue (keccak : List UInt8 → List UInt8) {t : AbiType} {v : Value}
    (ht : TopicType t) (hv : HasType t v) (hnn : ∀ k n, v = .int k n → 0 ≤ n) :
    ∃ w, packElement t v = .ok w ∧ makeTopic keccak (bindValue t v) = .ok w := by
  cases t <;> cases v <;> simp only [TopicType, HasType] at ht hv
  case IntTy.int s k n | UintTy.int s k n =>
    exact ⟨_, rfl, makeTopic_int keccak k (hnn k n rfl) (lt_of_inRange ht.2 hv.2)⟩
  case BoolTy.bool b =>
    cases b <;> exact ⟨_, rfl, rfl⟩
  case AddressTy.byteArray a =>
    refine ⟨_, rfl, ?_⟩
    simp [makeTopic, bindValue, LeftPadBytes, hv, HashLength, AddressLength]
    rfl
  case FixedBytesTy.byteArray n b =>
    refine ⟨_, rfl, ?_⟩
    simp only [makeTopic, bindValue, RightPadBytes, hv, HashLength, if_pos ht]
    split_ifs with h32
    · -- a full 32-byte array needs no padding
      have hz : 32 - n = 0 := by omega
      simp [hz]
      rfl
    · rfl

/-- The topic `makeTopics` builds for the Go value of an indexed argument of a
topic type is the word `Pack` writes for it, when the value is not a negative
integer. -/
theorem makeTopics_Pack (keccak : List UInt8 → List UInt8) {t : AbiType} {v : Value}
    (ht : TopicType t) (hv : HasType t v) (hnn : ∀ k n, v = .int k n → 0 ≤ n) :
    ∃ w, Pack [⟨t, true⟩] [v] = .ok w ∧ makeTopics keccak [[bindValue t v]] = .ok [[w]] := by
  obtain ⟨w, hw, htopic⟩ := makeTopic_bindValue keccak ht hv hnn
  refine ⟨w, (Pack_topic ht hv true).trans hw, ?_⟩
  simp [makeTopics, htopic]

/-! ## Fields read from topics -/

/-- `reflect.Copy` out of a padded array gives the array back. -/
theorem take_RightPadBytes (b : List UInt8) (l : Nat) : (RightPadBytes b l).take b.length = b := by
  unfold RightPadBytes
  split_ifs <;> simp

/-- A signed integer read back from its packed word into a field of its Go
type; into a `*big.Int` only when it is not negative. -/
theorem parseTopic_signed {s : Nat} {n : Int} (hs : s ≤ 256) (hr : inRange false s n)
    (hptr : reflectIntKind false s = .Ptr → 0 ≤ n) :
    parseTopic (IntTy s) (.Int (reflectIntKind false s) 0) (packNum n) =
      .ok (.Int (reflectIntKind false s) n) := by
  have hlt := lt_of_inRange hs hr
  simp only [inRange, Bool.false_eq_true, if_false] at hr
  obtain ⟨hl, hu⟩ := hr
  -- one case for each Go integer type, the last one being *big.Int
  unfold reflectIntKind at hptr ⊢
  split <;> simp only [Bool.false_eq_true, ↓reduceIte, parseTopic] at hptr ⊢
  · rw [truncSigned_bigInt64_packNum (by norm_num) (by norm_num) hl hu]; rfl
  · rw [truncSigned_bigInt64_packNum (by norm_num) (by norm_num) hl hu]; rfl
  · rw [truncSigned_bigInt64_packNum (by norm_num) (by norm_num) hl hu]; rfl
  · rw [bigInt64_packNum hl hu]; rfl
  · rw [bigEndian_packNum_of_nonneg (hptr trivial) hlt]; rfl

/-- An unsigned integer read back from its packed word into a field of its Go
type. -/
theorem parseTopic_unsigned {s : Nat} {n : Int} (hs : s ≤ 256) (hr : inRange true s n) :
    parseTopic (UintTy s) (.Int (reflectIntKind true s) 0) (packNum n) =
      .ok (.Int (reflectIntKind true s) n) := by
  have hlt := lt_of_inRange hs hr
  simp only [inRange, if_true] at hr
  obtain ⟨h0, hu⟩ := hr
  have hnum := bigEndian_packNum_of_nonneg h0 hlt
  unfold reflectIntKind
  split <;> simp only [↓reduceIte, parseTopic, bigUint64] <;> congr 2 <;> omega

theorem parseTopic_packElement {t : AbiType} {v : Value} (ht : TopicType t) (hv : HasType t v)
    (hbig : ∀ n, v = .int .Ptr n → 0 ≤ n) :
    ∃ w, packElement t v = .ok w ∧ parseTopic t (zeroField t) w = .ok (bindValue t v) := by
  cases t <;> cases v <;> simp only [TopicType, HasType] at ht hv
  case IntTy.int s k n =>
    obtain ⟨rfl, hr⟩ := hv
    exact ⟨_, rfl, parseTopic_signed ht.2 hr fun hk => hbig n (by rw [hk])⟩
  case UintTy.int s k n =>
    obtain ⟨rfl, hr⟩ := hv
    exact ⟨_, rfl, parseTopic_unsigned ht.2 hr⟩
  case BoolTy.bool b =>
    cases b <;> exact ⟨_, rfl, rfl⟩
  case AddressTy.byteArray a =>
    refine ⟨_, rfl, ?_⟩
    simp [parseTopic, zeroField, bindValue, LeftPadBytes, hv, HashLength, AddressLength]
    rfl
  case FixedBytesTy.byteArray n b =>
    refine ⟨_, rfl, ?_⟩
    subst hv
    have htake := take_RightPadBytes b 32
    simp [parseTopic, zeroField, bindValue, copyField, HashLength, ht, htake]
    rfl

/-- `parseTopics` fills the field of an indexed argument of a topic type with
its value from the word `Pack` writes for it, negative integers included,
unless the field is a `*big.Int` and the value negative. -/
theorem parseTopics_Pack {t : AbiType} {v : Value} (ht : TopicType t) (hv : HasType t v)
    (hbig : ∀ n, v = .int .Ptr n → 0 ≤ n) :
    ∃ w, Pack [⟨t, true⟩] [v] = .ok w ∧
      parseTopics [zeroField t] [⟨t, true⟩] [w] = .ok [bindValue t v] := by
  obtain ⟨w, hw, hfield⟩ := parseTopic_packElement ht hv hbig
  refine ⟨w, (Pack_topic ht hv true).trans hw, ?_⟩
  simp [parseTopics, hfield]

/-- `makeTopics` writes the magnitude of a negative integer: the topic of the
`int8` value `-1` is the word of `1`, where `Pack` writes the word of
`2^256 - 1` that a contract logs; `parseTopics` reads that topic as `1`, and a
`*big.Int` field reads the logged word of `-1` as `2^256 - 1`. -/
theorem makeTopics_drops_sign (keccak : List UInt8 → List UInt8) :
    makeTopics keccak [[bindValue (IntTy 8) (.int .Int8 (-1))]] = .ok [[bigEndianBytes 32 1]] ∧
      Pack [⟨IntTy 8, true⟩] [.int .Int8 (-1)] = .ok (List.replicate 32 0xff) ∧
      parseTopics [zeroField (IntTy 8)] [⟨IntTy 8, true⟩] [bigEndianBytes 32 1] =
        .ok [.Int .Int8 1] ∧
      parseTopics [zeroField (IntTy 256)] [⟨IntTy 256, true⟩] [List.replicate 32 0xff] =
        .ok [.Int .Ptr (2 ^ 256 - 1)] := by
  have htopic : makeTopic keccak (.Int .Int8 (-1)) = .ok (bigEndianBytes 32 1) :=
    alignRight_toBytesBE (by norm_num)
  refine ⟨?_, by decide +kernel, by decide +kernel, by decide +kernel⟩
  simp [makeTopics, bindValue, htopic]

end Btp.Abi
