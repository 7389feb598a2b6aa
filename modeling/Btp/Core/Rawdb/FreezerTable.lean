import Mathlib
import Btp.Common.Types

/-!
# The freezer table

`core/rawdb/freezer_table.go`: an append-only table of blobs numbered from
zero, kept in a chain of data files of bounded size and an index file of
6-byte entries. Entry `k + 1` holds the data file and the end offset of the
`k`-th stored item, whose start is the end of entry `k` in the same file, or
offset 0 when the file changed. Entry 0 is special: once items were deleted
from the tail, it holds the number of deleted items (`itemOffset`) in its file
field and the first data file (`tailId`) in its offset field.

The files are byte lists on a `Disk`. A table keeps the numbers of its open
data files; writes always go to the end of a file, as the code opens files for
appending and seeks to the end after every truncation. `Truncate` extends a
file with zero bytes when asked for a larger size, and `ReadAt` fails unless
every byte it asks for exists.

Go sizes and offsets are `int64`, `uint32` or `uint64`; the model computes in
`Int` or `Nat` and reduces modulo `2^32` or `2^64` where the code converts.
Blob compression (`snappy`, not part of this source tree) is a parameter.
-/

namespace Btp.Rawdb

/-- `indexEntrySize`. -/
def indexEntrySize : Nat := 6

/-- `indexEntry`: a data file number, serialised in two bytes, and an end
offset, in four. -/
structure IndexEntry where
  filenum : Nat
  offset : Nat
deriving DecidableEq, Repr

/-- `indexEntry.unmarshalBinary`: big-endian, from the first six bytes. -/
def IndexEntry.unmarshalBinary (b : List UInt8) : IndexEntry :=
  ⟨(b.getD 0 0).toNat * 2 ^ 8 + (b.getD 1 0).toNat,
    (b.getD 2 0).toNat * 2 ^ 24 + (b.getD 3 0).toNat * 2 ^ 16 + (b.getD 4 0).toNat * 2 ^ 8 +
      (b.getD 5 0).toNat⟩

/-- `indexEntry.marshallBinary`: `uint16(filenum)` and `offset`, big-endian. -/
def IndexEntry.marshallBinary (i : IndexEntry) : List UInt8 :=
  [UInt8.ofNat (i.filenum / 2 ^ 8), UInt8.ofNat i.filenum, UInt8.ofNat (i.offset / 2 ^ 24),
    UInt8.ofNat (i.offset / 2 ^ 16), UInt8.ofNat (i.offset / 2 ^ 8), UInt8.ofNat i.offset]

/-- `File.Truncate`: cut the file to `size` bytes, or extend it with zeros. -/
def truncateBytes (b : List UInt8) (size : Nat) : List UInt8 :=
  if size ≤ b.length then b.take size else b ++ List.replicate (size - b.length) 0

/-- `File.ReadAt`: the `n` bytes at `off`, an error unless they all exist. -/
def readAt (b : List UInt8) (off : Int) (n : Nat) : Option (List UInt8) :=
  if 0 ≤ off ∧ off.toNat + n ≤ b.length then some ((b.drop off.toNat).take n) else none

/-- The files of one table: its index file and its data files by number. -/
structure Disk where
  index : List UInt8
  data : GoMap Nat (List UInt8)

/-- The blob codec of compressed tables (`snappy`). -/
structure Codec where
  Encode : List UInt8 → List UInt8
  Decode : List UInt8 → Option (List UInt8)

/-- The errors of the table: `errClosed`, `errOutOfBounds`, "appending
unexpected item", "missing data file", and a failed file operation. -/
inductive FreezerError
  | closed
  | outOfBounds
  | unexpectedItem (want got : Nat)
  | missingDataFile (filenum : Nat)
  | io
deriving DecidableEq, Repr

/-- How `openFile` opens a file that is not open yet. -/
inductive Opener
  | forAppend
  | forReadOnly
  | truncated
deriving DecidableEq, Repr

/-- `freezerTable`. `files` are the open data files; the head file is the
open file `headId`, and `opened` says whether the index and head descriptors
are set (they are cleared by `Close`). -/
structure FreezerTable where
  items : Nat
  noCompression : Bool
  maxFileSize : Nat
  disk : Disk
  files : List Nat
  headId : Nat
  tailId : Nat
  itemOffset : Nat
  headBytes : Nat
  opened : Bool

namespace FreezerTable

/-- The bytes of data file `num`. -/
def dataOf (t : FreezerTable) (num : Nat) : List UInt8 := (t.disk.data.lookup num).getD []

/-- Replace the bytes of data file `num`. -/
def setData (t : FreezerTable) (num : Nat) (b : List UInt8) : FreezerTable :=
  { t with disk := { t.disk with data := t.disk.data.insert num b } }

/-- Replace the bytes of the index file. -/
def setIndex (t : FreezerTable) (b : List UInt8) : FreezerTable :=
  { t with disk := { t.disk with index := b } }

/-- `freezerTable.openFile`: an open file is returned as it is; otherwise
`forAppend` creates a missing file, `forReadOnly` fails on one, and
`truncated` empties it. -/
def openFile (t : FreezerTable) (num : Nat) (opener : Opener) : Except FreezerError FreezerTable :=
  if num ∈ t.files then .ok t
  else
    let t' := { t with files := t.files ++ [num] }
    match opener with
    | .forAppend => .ok (t'.setData num (t.dataOf num))
    | .forReadOnly => if (t.disk.data.lookup num).isSome then .ok t' else .error .io
    | .truncated => .ok (t'.setData num [])

/-- `freezerTable.releaseFile`. -/
def releaseFile (t : FreezerTable) (num : Nat) : FreezerTable :=
  { t with files := t.files.erase num }

/-- `freezerTable.releaseFilesAfter`: close the open files above `num`, and
with `remove` delete them. -/
def releaseFilesAfter (t : FreezerTable) (num : Nat) (remove : Bool) : FreezerTable :=
  let after := t.files.filter (· > num)
  let t := { t with files := t.files.filter (· ≤ num) }
  if remove then
    { t with disk := { t.disk with data := after.foldl (fun data f => data.erase f) t.disk.data } }
  else t

/-- `freezerTable.preopen`: reopen the files from the tail to the head, the
head for appending. -/
def preopen (t : FreezerTable) : Except FreezerError FreezerTable := do
  let t := t.releaseFilesAfter 0 false
  let t ← (List.range' t.tailId (t.headId - t.tailId)).foldlM
    (fun t i => t.openFile i .forReadOnly) t
  t.openFile t.headId .forAppend

/-- The loop of `repair`: while the last index entry and the size of the head
file disagree, cut the head file back to the entry, or drop the entry and step
back to the previous one, possibly in an earlier head file. The head file is
the file of `lastIndex`. The index size `offsetsSize` is a whole number of
entries, `entries * indexEntrySize`, which is what the recursion is on. -/
def repairLoop (t : FreezerTable) (buffer : List UInt8) (entries : Nat)
    (lastIndex : IndexEntry) (contentSize : Nat) :
    Except FreezerError (FreezerTable × Nat × IndexEntry × Nat) :=
  let contentExp := lastIndex.offset
  if contentExp = contentSize then .ok (t, entries, lastIndex, contentSize)
  else if contentExp < contentSize then
    -- "Truncating dangling head"
    .ok (t.setData lastIndex.filenum (truncateBytes (t.dataOf lastIndex.filenum) contentExp),
      entries, lastIndex, contentExp)
  else
    match entries with
    -- truncating the index to a negative size fails
    | 0 => .error .io
    | entries + 1 =>
      -- "Truncating dangling indexes"
      let t := t.setIndex (truncateBytes t.disk.index (entries * indexEntrySize))
      -- a failed read leaves the buffer as it was
      let buffer := (readAt t.disk.index ((entries : Int) * indexEntrySize - indexEntrySize)
        indexEntrySize).getD buffer
      let newLastIndex := IndexEntry.unmarshalBinary buffer
      if newLastIndex.filenum ≠ lastIndex.filenum then
        -- slipped back into an earlier head file; opening for appending cannot fail
        let t := t.releaseFile lastIndex.filenum
        let t := match t.openFile newLastIndex.filenum .forAppend with
          | .ok t => t
          | .error _ => t
        repairLoop t buffer entries newLastIndex (t.dataOf newLastIndex.filenum).length
      else repairLoop t buffer entries newLastIndex contentSize

/-- `freezerTable.repair`: bring the index and the head file in line after a
crash, and set the counters from them. -/
def repair (t : FreezerTable) : Except FreezerError FreezerTable := do
  let buffer := List.replicate indexEntrySize (0 : UInt8)
  let size := t.disk.index.length
  -- a new index starts with the zero entry
  let t := if size = 0 then t.setIndex buffer else t
  -- the index is cut to whole entries, by the size it had before
  let t := if size % indexEntrySize ≠ 0 then
      t.setIndex (truncateBytes t.disk.index (size - size % indexEntrySize))
    else t
  let entries := t.disk.index.length / indexEntrySize
  let buffer := (readAt t.disk.index 0 indexEntrySize).getD buffer
  let firstIndex := IndexEntry.unmarshalBinary buffer
  let t := { t with tailId := firstIndex.offset, itemOffset := firstIndex.filenum }
  let buffer := (readAt t.disk.index ((entries : Int) * indexEntrySize - indexEntrySize)
    indexEntrySize).getD buffer
  let lastIndex := IndexEntry.unmarshalBinary buffer
  let t ← t.openFile lastIndex.filenum .forAppend
  let r ← t.repairLoop buffer entries lastIndex (t.dataOf lastIndex.filenum).length
  let (t, entries, lastIndex, contentSize) := r
  -- the last entry points to the end of the data; `offsetsSize/indexEntrySize-1`
  -- is `-1` for an empty index, and wraps in `uint64`
  let t := { t with
    items := (t.itemOffset + (((entries : Int) - 1) % 2 ^ 64).toNat) % 2 ^ 64
    headBytes := contentSize % 2 ^ 32
    headId := lastIndex.filenum }
  t.preopen

end FreezerTable

/-- `newCustomTable` on the files of `disk`. -/
def newCustomTable (disk : Disk) (maxFilesize : Nat) (noCompression : Bool) :
    Except FreezerError FreezerTable :=
  FreezerTable.repair
    { items := 0, noCompression, maxFileSize := maxFilesize, disk, files := [], headId := 0,
      tailId := 0, itemOffset := 0, headBytes := 0, opened := true }

namespace FreezerTable

/-- `freezerTable.truncate`: discard the items from `items` on. -/
def truncate (t : FreezerTable) (items : Nat) : Except FreezerError FreezerTable := do
  if t.items ≤ items then return t
  let t := t.setIndex (truncateBytes t.disk.index ((items + 1) * indexEntrySize))
  let buffer ← match readAt t.disk.index (items * indexEntrySize) indexEntrySize with
    | some buffer => pure buffer
    | none => throw .io
  let expected := IndexEntry.unmarshalBinary buffer
  -- we might need to truncate back to older files
  let t ← if expected.filenum ≠ t.headId then do
      let t := t.releaseFile expected.filenum
      let t ← t.openFile expected.filenum .forAppend
      let t := t.releaseFilesAfter expected.filenum true
      pure { t with headId := expected.filenum }
    else pure t
  let t := t.setData t.headId (truncateBytes (t.dataOf t.headId) expected.offset)
  return { t with items, headBytes := expected.offset }

/-- `freezerTable.Close`. -/
def Close (t : FreezerTable) : FreezerTable := { t with files := [], opened := false }

section
variable (codec : Codec)

/-- `freezerTable.Append`: store `blob` as item `item`, which must be the
next one, starting a new head file when the current one would overflow. -/
def Append (t : FreezerTable) (item : Nat) (blob : List UInt8) : Except FreezerError FreezerTable := do
  if !t.opened then throw .closed
  if t.items ≠ item then throw (.unexpectedItem t.items item)
  let blob := if t.noCompression then blob else codec.Encode blob
  let bLen := blob.length % 2 ^ 32
  -- `t.headBytes+bLen < bLen` is the `uint32` overflow
  let t ← if t.headBytes + bLen ≥ 2 ^ 32 ∨ t.headBytes + bLen > t.maxFileSize then do
      let nextID := (t.headId + 1) % 2 ^ 32
      let t ← t.openFile nextID .truncated
      -- close the old head and reopen it read-only; a failure is ignored
      let t := t.releaseFile t.headId
      let t := match t.openFile t.headId .forReadOnly with
        | .ok t => t
        | .error _ => t
      pure { t with headBytes := 0, headId := nextID }
    else pure t
  let t := t.setData t.headId (t.dataOf t.headId ++ blob)
  let newOffset := (t.headBytes + bLen) % 2 ^ 32
  let t := t.setIndex (t.disk.index ++ (IndexEntry.mk t.headId newOffset).marshallBinary)
  return { t with headBytes := newOffset, items := t.items + 1 }

/-- `freezerTable.getBounds`: the start and end offsets and the file of the
item at index position `item`. An item that crosses into a new file starts at
offset 0 of it. -/
def getBounds (t : FreezerTable) (item : Nat) : Except FreezerError (Nat × Nat × Nat) := do
  let some b₁ := readAt t.disk.index (item * indexEntrySize) indexEntrySize | throw .io
  let startIdx := IndexEntry.unmarshalBinary b₁
  let some b₂ := readAt t.disk.index ((item + 1) * indexEntrySize) indexEntrySize | throw .io
  let endIdx := IndexEntry.unmarshalBinary b₂
  if startIdx.filenum ≠ endIdx.filenum then return (0, endIdx.offset, endIdx.filenum)
  return (startIdx.offset, endIdx.offset, endIdx.filenum)

/-- `freezerTable.Retrieve`. -/
def Retrieve (t : FreezerTable) (item : Nat) : Except FreezerError (List UInt8) := do
  if !t.opened then throw .closed
  if t.items ≤ item then throw .outOfBounds
  -- the item may have been deleted from the tail
  if t.itemOffset > item then throw .outOfBounds
  let (startOffset, endOffset, filenum) ← t.getBounds (item - t.itemOffset)
  if filenum ∉ t.files then throw (.missingDataFile filenum)
  -- `endOffset-startOffset` is a `uint32` subtraction
  let some blob := readAt (t.dataOf filenum) startOffset ((endOffset + 2 ^ 32 - startOffset) % 2 ^ 32)
    | throw .io
  if t.noCompression then return blob
  let some blob := codec.Decode blob | throw .io
  return blob

end

end FreezerTable

/-! ## Truncating a table with deleted tail items

The table of `TestOffset`: six 20-byte items were appended with files of at
most 40 bytes, then the files 0 and 1 were deleted and the index rewritten
with the entry `(itemOffset 4, tailId 2)` in front of the two entries of file
2, which holds items 4 and 5. `truncate 5` should drop item 5 alone. It cuts
the index at entry `5 + 1` as if no item had been deleted: the index is
extended with zeros, the entry it reads back names file 0, and every open file
after file 0 is closed and deleted, file 2 with item 4 in it. -/

/-- `getChunk`: `n` copies of the byte `b`. -/
def chunk (n : Nat) (b : UInt8) : List UInt8 := List.replicate n b

/-- The codec of an uncompressed table, which never uses it. -/
def rawCodec : Codec := ⟨id, some⟩

/-- The files `TestOffset` leaves after cropping the table. -/
def offsetDisk : Disk :=
  ⟨IndexEntry.marshallBinary ⟨4, 2⟩ ++ IndexEntry.marshallBinary ⟨2, 20⟩ ++
      IndexEntry.marshallBinary ⟨2, 40⟩,
    (∅ : GoMap Nat (List UInt8)).insert 2 (chunk 20 0xbb ++ chunk 20 0xaa)⟩

theorem truncate_loses_retained_item :
    ((newCustomTable offsetDisk 40 true).bind fun t => t.Retrieve rawCodec 4) = .ok (chunk 20 0xbb) ∧
      (((newCustomTable offsetDisk 40 true).bind fun t => t.truncate 5).map fun t =>
        (t.itemOffset, t.items)) = .ok (4, 5) ∧
      ((newCustomTable offsetDisk 40 true).bind fun t =>
        (t.truncate 5).bind fun t => t.Retrieve rawCodec 4) = .error (.missingDataFile 2) :=
  ⟨rfl, rfl, rfl⟩

end Btp.Rawdb
