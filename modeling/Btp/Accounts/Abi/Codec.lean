import Mathlib
import Btp.Accounts.Abi.Type

/-!
# Packing and unpacking ABI values

`Type.pack`, `typeCheck`, `sliceTypeCheck`, `packElement`, `packBytesSlice`
and `Arguments.Pack` of `accounts/abi`; `toGoType`, `forEachUnpack`,
`forTupleUnpack`, `lengthPrefixPointsTo`, `tuplePointsTo`, `readInteger`,
`readBool`, `readFixedBytes`, `readFunctionType` and
`Arguments.UnpackValues`.

The encoder lays a sequence of members out as a head, where a static member
stands in place and a dynamic one as the offset of its encoding, and a tail
of those encodings (`layout`); slices, arrays, tuples and argument lists
share it, with the first offset computed from `getTypeSize`. The decoder
reads member `i` of a tuple at word `i + virtualArgs`, where `virtualArgs`
counts the extra words of the static arrays and tuples before it, also from
`getTypeSize`, and the elements of a slice or an array `getTypeSize` bytes
apart.

A Go panic is an error of its own (`panic`). A slice of `output` keeps the
capacity of the data, taken to be its length. Integers of the Go type `int`
are natural numbers here, except `virtualArgs`, which goes negative past an
empty static member.
-/

namespace Btp.Abi

open AbiType

/-! ## Packing -/

/-- The errors of `pack` and `Pack`. -/
inductive PackError
  /-- `typeErr`: the value's kind, length or size is not the type's. -/
  | typeErr
  /-- "field %s for tuple not found in the given struct". -/
  | fieldNotFound
  /-- "argument count mismatch: %d for %d", the values then the arguments. -/
  | countMismatch (got want : Nat)
  /-- A runtime panic: `reflect.Value.Index` past the end, or `packElement`'s
  "abi: fatal error". -/
  | panic
  deriving DecidableEq, Repr

/-- The elements of a slice or array value; a byte slice or array is one of
`uint8`s. -/
def Value.elems? : Value → Option (List Value)
  | .array vs => some vs
  | .bytes b | .byteArray b => some (b.map fun x => .int .Uint8 x.toNat)
  | _ => none

/-- `sliceTypeCheck` of a value against a slice (`size = none`) or an array of
`elem`. Only the first element of a nested slice or array is checked, and a
nested array is looked for in an empty value, which panics. The kind of the
elements stands for Go's static element type. -/
def sliceTypeCheck : AbiType → Option Nat → Value → Except PackError Unit
  | elem, size, v =>
    match v.elems? with
    | none => .error .typeErr
    | some vs =>
      if size.any (· ≠ vs.length) then .error .typeErr
      else
        let kindCheck : Except PackError Unit :=
          if vs.all (·.kind = elem.kind) then pure () else .error .typeErr
        match elem with
        | SliceTy e =>
          match vs with
          | v0 :: _ => sliceTypeCheck e none v0
          | [] => kindCheck
        | ArrayTy e k =>
          match vs with
          | v0 :: _ => sliceTypeCheck e (some k) v0
          | [] => .error .panic
        | _ => kindCheck

/-- `typeCheck`. -/
def typeCheck (t : AbiType) (v : Value) : Except PackError Unit :=
  match t with
  | SliceTy elem => sliceTypeCheck elem none v
  | ArrayTy elem size => sliceTypeCheck elem (some size) v
  | FixedBytesTy size =>
    if t.kind ≠ v.kind then .error .typeErr
    else if (v.elems?.map List.length) ≠ some size then .error .typeErr
    else pure ()
  | _ => if t.kind ≠ v.kind then .error .typeErr else pure ()

/-- `packBytesSlice`: the length, then the bytes padded to whole words. -/
def packBytesSlice (bytes : List UInt8) (l : Nat) : List UInt8 :=
  packNum l ++ RightPadBytes bytes ((l + 31) / 32 * 32)

/-- `packElement` of a value that passed `typeCheck`. -/
def packElement (t : AbiType) (v : Value) : Except PackError (List UInt8) :=
  match t, v with
  | IntTy _, .int _ n | UintTy _, .int _ n => pure (packNum n)
  | StringTy, .string s => pure (packBytesSlice s s.length)
  | AddressTy, .byteArray b => pure (LeftPadBytes b 32)
  | BoolTy, .bool b => pure (bigEndianBytes 32 (if b then 1 else 0))
  | BytesTy, .bytes b => pure (packBytesSlice b b.length)
  | FixedBytesTy _, .byteArray b | FunctionTy, .byteArray b => pure (RightPadBytes b 32)
  | _, _ => .error .panic

/-- The head and the tail of a sequence of packed members, each with whether
it is dynamic: a static member stands in the head, a dynamic one as the
offset of its encoding in the tail, offsets counting from `offset`. -/
def layout (offset : Nat) : List (Bool × List UInt8) → List UInt8 × List UInt8
  | [] => ([], [])
  | (dynamic, val) :: rest =>
    if dynamic then
      let (head, tail) := layout (offset + val.length) rest
      (packNum offset ++ head, val ++ tail)
    else
      let (head, tail) := layout offset rest
      (val ++ head, tail)

mutual
/-- `Type.pack`. -/
def pack : AbiType → Value → Except PackError (List UInt8)
  | t, v => do
    typeCheck t v
    match t with
    | SliceTy elem | ArrayTy elem _ =>
      match v.elems? with
      | none => .error .typeErr
      | some vs =>
        let vals ← vs.mapM (pack elem)
        let ret := if t.requiresLengthPrefix then packNum vs.length else []
        let offsetReq := isDynamicType elem
        let offset := if offsetReq then getTypeSize elem * vs.length else 0
        let (head, tail) := layout offset (vals.map (offsetReq, ·))
        pure (ret ++ head ++ tail)
    | TupleTy elems =>
      match v with
      | .tuple vs => do
        let vals ← packTuple elems vs
        let (head, tail) := layout (sumTypeSize elems) vals
        pure (head ++ tail)
      | _ => .error .typeErr
    | _ => packElement t v

/-- The members of a tuple packed one after the other, each with whether it
is dynamic; a missing field is an error, an extra one is ignored. -/
def packTuple : List AbiType → List Value → Except PackError (List (Bool × List UInt8))
  | [], _ => pure []
  | _ :: _, [] => .error .fieldNotFound
  | elem :: elems, v :: vs => do
    let val ← pack elem v
    let rest ← packTuple elems vs
    pure ((isDynamicType elem, val) :: rest)
end

/-- `Argument`; its `Name` only matters to unpacking into a struct, which is
not modelled. -/
structure Argument where
  Typ : AbiType
  Indexed : Bool

/-- `Arguments.Pack`: the arguments laid out as the members of a tuple. -/
def Pack (arguments : List Argument) (args : List Value) : Except PackError (List UInt8) := do
  if args.length ≠ arguments.length then throw (.countMismatch args.length arguments.length)
  let abiArgs := arguments.map (·.Typ)
  let packed ← packTuple abiArgs args
  let (ret, variableInput) := layout (sumTypeSize abiArgs) packed
  pure (ret ++ variableInput)

/-! ## Unpacking -/

/-- The errors of unpacking, with the numbers their messages print. -/
inductive UnpackError
  /-- "length insufficient %d require %d": the length, then what is needed. -/
  | lengthInsufficient (len need : Nat)
  /-- "offset %v would go over slice boundary (len=%v)". -/
  | offsetOverSlice (offset len : Nat)
  /-- "abi offset larger than int64: %v". -/
  | offsetTooLarge (offset : Nat)
  /-- "abi: length larger than int64: %v". -/
  | lengthTooLarge (total : Nat)
  /-- "cannot marshal in to go array: offset %d would go over slice boundary
  (len=%d)", printed with the length first and the end second. -/
  | arrayOverSlice (len finish : Nat)
  /-- `errBadBool`. -/
  | badBool
  /-- "abi: got improperly encoded function type, got %v". -/
  | badFunction (word : List UInt8)
  /-- A runtime panic: a slice out of range. -/
  | panic
  deriving DecidableEq, Repr

/-- `int8` to `int64` conversions of the low `bits` bits. -/
def toSigned (bits n : Nat) : Int := if n < 2 ^ (bits - 1) then n else (n : Int) - 2 ^ bits

/-- `maxInt256`. -/
def maxInt256 : Nat := 2 ^ 255 - 1

/-- `readInteger` of a word, for an unsigned or signed type of that kind. -/
def readInteger (unsigned : Bool) (kind : IntKind) (b : List UInt8) : Int :=
  let low (n : Nat) : Nat := bigEndian (b.drop (b.length - n))
  match kind with
  | .Uint8 => low 1
  | .Uint16 => low 2
  | .Uint32 => low 4
  | .Uint64 => low 8
  | .Int8 => toSigned 8 (low 1)
  | .Int16 => toSigned 16 (low 2)
  | .Int32 => toSigned 32 (low 4)
  | .Int64 => toSigned 64 (low 8)
  | .Ptr =>
    let ret := bigEndian b
    if unsigned then ret else if maxInt256 < ret then (ret : Int) - 2 ^ 256 else ret

/-- `readBool`: a word that is `0` or `1`. -/
def readBool (word : List UInt8) : Except UnpackError Bool :=
  if (word.take 31).any (· ≠ 0) then .error .badBool
  else match word.getD 31 0 with
    | 0 => pure false
    | 1 => pure true
    | _ => .error .badBool

/-- `readFunctionType`: 24 bytes, then zeros. -/
def readFunctionType (word : List UInt8) : Except UnpackError Value :=
  if bigEndian (word.drop 24) ≠ 0 then .error (.badFunction word)
  else pure (.byteArray (word.take 24))

/-- `readFixedBytes`: the first `size` bytes from the word on, which reach
past the word as far as the data does. -/
def readFixedBytes (size : Nat) (rest : List UInt8) : Except UnpackError Value :=
  if rest.length < size then .error .panic else pure (.byteArray (rest.take size))

/-- `lengthPrefixPointsTo`: the start and the length of the data that the
offset at `index` points to. -/
def lengthPrefixPointsTo (index : Nat) (output : List UInt8) : Except UnpackError (Nat × Nat) := do
  let bigOffsetEnd := bigEndian ((output.drop index).take 32) + 32
  if output.length < bigOffsetEnd then throw (.offsetOverSlice bigOffsetEnd output.length)
  if 2 ^ 63 ≤ bigOffsetEnd then throw (.offsetTooLarge bigOffsetEnd)
  let lengthBig := bigEndian ((output.drop (bigOffsetEnd - 32)).take 32)
  let totalSize := bigOffsetEnd + lengthBig
  if 2 ^ 63 ≤ totalSize then throw (.lengthTooLarge totalSize)
  if output.length < totalSize then throw (.lengthInsufficient output.length totalSize)
  pure (bigOffsetEnd, lengthBig)

/-- `tuplePointsTo`: the offset at `index`. -/
def tuplePointsTo (index : Nat) (output : List UInt8) : Except UnpackError Nat := do
  let offset := bigEndian ((output.drop index).take 32)
  if output.length < offset then throw (.offsetOverSlice offset output.length)
  if 2 ^ 63 ≤ offset then throw (.offsetTooLarge offset)
  pure offset

/-- The loop of `forEachUnpack`: `size` elements from `start`, `elemSize`
bytes apart. -/
def unpackEach (dec : Nat → Except UnpackError Value) (start elemSize : Nat) :
    Nat → Except UnpackError (List Value)
  | 0 => pure []
  | size + 1 => do
    let inter ← dec start
    let rest ← unpackEach dec (start + elemSize) elemSize size
    pure (inter :: rest)

/-- `forEachUnpack` of `size` elements of type `elem`, each decoded by `dec`. -/
def forEachUnpack (dec : Nat → Except UnpackError Value) (elem : AbiType) (output : List UInt8)
    (start size : Nat) : Except UnpackError Value :=
  if output.length < start + 32 * size then .error (.arrayOverSlice output.length (start + 32 * size))
  else .array <$> unpackEach dec start (getTypeSize elem) size

/-- How far the members after `elem` move: the words of a static array or
tuple past the first. -/
def virtualWords (elem : AbiType) : Int :=
  match elem with
  | ArrayTy _ _ | TupleTy _ => if !isDynamicType elem then (getTypeSize elem / 32 : Nat) - 1 else 0
  | _ => 0

mutual
/-- `toGoType`: the value of type `t` whose head word is at `index`. -/
def toGoType (index : Nat) : AbiType → List UInt8 → Except UnpackError Value
  | t, output => do
    if output.length < index + 32 then throw (.lengthInsufficient output.length (index + 32))
    let returnOutput := (output.drop index).take 32
    match t with
    | TupleTy elems =>
      if anyDynamic elems then do
        let start ← tuplePointsTo index output
        .tuple <$> forTupleUnpack elems 0 0 (output.drop start)
      else .tuple <$> forTupleUnpack elems 0 0 (output.drop index)
    | SliceTy elem => do
      let (start, length) ← lengthPrefixPointsTo index output
      let rest := output.drop start
      forEachUnpack (fun i => toGoType i elem rest) elem rest 0 length
    | ArrayTy elem size =>
      if isDynamicType elem then
        -- Go reads the offset from the last eight bytes of the word, as an `int64`
        let offset := bigEndian (returnOutput.drop 24)
        if 2 ^ 63 ≤ offset ∨ output.length < offset then .error .panic
        else
          let rest := output.drop offset
          forEachUnpack (fun i => toGoType i elem rest) elem rest 0 size
      else
        let rest := output.drop index
        forEachUnpack (fun i => toGoType i elem rest) elem rest 0 size
    | StringTy => do
      let (start, length) ← lengthPrefixPointsTo index output
      pure (.string ((output.drop start).take length))
    | BytesTy => do
      let (start, length) ← lengthPrefixPointsTo index output
      pure (.bytes ((output.drop start).take length))
    | IntTy size =>
      let kind := reflectIntKind false size
      pure (.int kind (readInteger false kind returnOutput))
    | UintTy size =>
      let kind := reflectIntKind true size
      pure (.int kind (readInteger true kind returnOutput))
    | BoolTy => .bool <$> readBool returnOutput
    | AddressTy => pure (.byteArray (returnOutput.drop 12))
    | FixedBytesTy size => readFixedBytes size (output.drop index)
    | FunctionTy => readFunctionType returnOutput

/-- The loop of `forTupleUnpack` over the members from the `index`-th on,
`virtualArgs` counting the words the static arrays and tuples before them
take past their first; the word index is never negative, as every member
lowers `virtualArgs` by at most one. -/
def forTupleUnpack : List AbiType → Nat → Int → List UInt8 → Except UnpackError (List Value)
  | [], _, _, _ => pure []
  | elem :: elems, index, virtualArgs, output => do
    let marshalledValue ← toGoType ((index + virtualArgs) * 32).toNat elem output
    let rest ← forTupleUnpack elems (index + 1) (virtualArgs + virtualWords elem) output
    pure (marshalledValue :: rest)
end

/-- `Arguments.UnpackValues`: the non-indexed arguments read as the members of
a tuple. -/
def UnpackValues (arguments : List Argument) (data : List UInt8) : Except UnpackError (List Value) :=
  forTupleUnpack ((arguments.filter (!·.Indexed)).map (·.Typ)) 0 0 data

/-! ## A static array of tuples -/

/-- The tuple `(tuple(uint256,uint256)[1], uint256)`. -/
def pairArrayThenUint : AbiType :=
  TupleTy [ArrayTy (TupleTy [UintTy 256, UintTy 256]) 1, UintTy 256]

/-- `getTypeSize` counts the array of one pair as one word, though its
encoding takes two, so the decoder reads the `uint256` after it from the
pair's second word: the value comes back with `2` where `3` was packed. -/
theorem UnpackValues_Pack_misreads_member_after_tuple_array :
    let args : List Argument := [⟨pairArrayThenUint, false⟩]
    let v : Value := .tuple [.array [.tuple [.int .Ptr 1, .int .Ptr 2]], .int .Ptr 3]
    HasType pairArrayThenUint v ∧
      (Pack args [v]).map (UnpackValues args) =
        .ok (.ok [.tuple [.array [.tuple [.int .Ptr 1, .int .Ptr 2]], .int .Ptr 2]]) := by
  refine ⟨?_, by decide +kernel⟩
  simp [pairArrayThenUint, HasType, AllHaveType, MembersHaveType, inRange, reflectIntKind]

/-! ## An array of dynamic elements -/

/-- A static array of dynamic elements is read from the offset in the last
eight bytes of its word, which nothing checks against the data: for
`string[1]`, one word holding 64 has the decoder slice 32 bytes of data from
byte 64, and Go panics. -/
theorem UnpackValues_panics_on_array_offset_past_data :
    UnpackValues [⟨ArrayTy StringTy 1, false⟩] (bigEndianBytes 32 64) = .error .panic := by
  decide +kernel

end Btp.Abi
