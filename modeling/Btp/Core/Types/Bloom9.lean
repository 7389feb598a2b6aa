import Btp.Lib.ByteBits
import Btp.Common.Types

/-!
# Header blooms

`core/types/bloom9.go`. A `Bloom` is 256 bytes, which `Big` reads as a
big-endian number: its bit `i` is bit `i % 8` of byte `255 - i / 8`.
`bloom9` sets three bits for a key, each an 11-bit index taken from a pair
of bytes of the key's Keccak-256 hash, and `BloomLookup` tests that all
three are set. `LogsBloom` and `CreateBloom` or together the bits of the
address and of every topic of every log. The hash is a parameter.

A log keeps the fields that the blooms and the log filters read.
-/

namespace Btp.Types

open ByteBits

def BloomByteLength : Nat := 256

def BloomBitLength : Nat := 8 * BloomByteLength

/-- `Bloom`: a 2048-bit filter held as 256 bytes. -/
abbrev Bloom := Vector UInt8 BloomByteLength

/-- `Bloom.Big`: the bytes as a big-endian number. -/
def Bloom.Big (b : Bloom) : Nat := ofBytesBE b.toList

theorem byteIndex_lt (i : Nat) : BloomByteLength - 1 - i / 8 < BloomByteLength := by
  unfold BloomByteLength; omega

/-- `common.Address.Bytes()`: the 20 bytes, most significant first. -/
def addressBytes (a : Address) : List UInt8 :=
  (List.range 20).map fun i => ((a.toNat / 256 ^ (19 - i)) % 256).toUInt8

/-- `common.Hash.Bytes()`: the 32 bytes, most significant first. -/
def topicBytes (h : Hash) : List UInt8 :=
  (List.range 32).map fun i => ((h.toNat / 256 ^ (31 - i)) % 256).toUInt8

structure Log where
  Address : Address
  Topics : List Hash
  BlockNumber : UInt64
  TxHash : Hash
  deriving DecidableEq, Repr

structure Receipt where
  Logs : List Log
  deriving DecidableEq, Repr

/-- `BytesToBloom`, that is `SetBytes` on a zero bloom: the bytes at the
end, and a panic (`none`) when there are more than 256 of them. -/
def BytesToBloom (b : List UInt8) : Option Bloom :=
  if h : b.length ≤ BloomByteLength then
    some ⟨(List.replicate (BloomByteLength - b.length) 0 ++ b).toArray, by simp; omega⟩
  else none

section Hash

variable (Keccak256 : List UInt8 → Vector UInt8 32)

/-- The bit that step `i` of `bloom9`'s loop sets for the hash `h`: the
bytes `2i` and `2i + 1`, big-endian, modulo 2048. -/
def bloom9Index (h : Vector UInt8 32) (i : Fin 3) : Nat :=
  (h[2 * i.val + 1].toNat + (h[2 * i.val].toNat <<< 8)) &&& 2047

def bloom9 (b : List UInt8) : Nat :=
  let h := Keccak256 b
  (List.finRange 3).foldl (fun r i => r ||| 1 <<< bloom9Index h i) 0

def BloomLookup (bin : Bloom) (topic : List UInt8) : Bool :=
  let bloom := bin.Big
  let cmp := bloom9 Keccak256 topic
  (bloom &&& cmp) == cmp

def LogsBloom (logs : List Log) : Nat :=
  logs.foldl (fun bin log =>
    log.Topics.foldl (fun bin b => bin ||| bloom9 Keccak256 (topicBytes b))
      (bin ||| bloom9 Keccak256 (addressBytes log.Address))) 0

def CreateBloom (receipts : List Receipt) : Option Bloom :=
  let bin := receipts.foldl (fun bin receipt => bin ||| LogsBloom Keccak256 receipt.Logs) 0
  BytesToBloom (toBytesBE bin)

/-! ## The bits of a key -/

theorem bloom9Index_lt (h : Vector UInt8 32) (i : Fin 3) : bloom9Index h i < BloomBitLength := by
  unfold bloom9Index BloomBitLength BloomByteLength
  exact lt_of_le_of_lt Nat.and_le_right (by norm_num)

theorem testBit_bloom9 (b : List UInt8) (n : Nat) :
    (bloom9 Keccak256 b).testBit n = decide (∃ i, bloom9Index (Keccak256 b) i = n) := by
  simp [bloom9, List.finRange_succ, Nat.one_shiftLeft, Nat.testBit_two_pow, Fin.exists_fin_succ,
    Bool.or_assoc]

/-- A lookup succeeds exactly when the bloom holds the three bits of the key. -/
theorem BloomLookup_iff (bin : Bloom) (topic : List UInt8) :
    BloomLookup Keccak256 bin topic = true ↔
      ∀ i, bin.Big.testBit (bloom9Index (Keccak256 topic) i) = true := by
  simp only [BloomLookup, beq_iff_eq]
  constructor
  · intro h i
    have hbit := congrArg (fun x => x.testBit (bloom9Index (Keccak256 topic) i)) h
    have hkey : ∃ j, bloom9Index (Keccak256 topic) j = bloom9Index (Keccak256 topic) i := ⟨i, rfl⟩
    simpa [Nat.testBit_land, testBit_bloom9, hkey] using hbit
  · intro h
    apply Nat.eq_of_testBit_eq
    intro n
    rw [Nat.testBit_land, testBit_bloom9]
    by_cases hn : ∃ i, bloom9Index (Keccak256 topic) i = n
    · obtain ⟨i, rfl⟩ := hn
      simp [h i]
    · simp [hn]

/-- Bit `i` of the bloom is the one that `byte & (1 << (i % 8))` tests in
byte `255 - i / 8`. -/
theorem testBit_Big (b : Bloom) {i : Nat} (hi : i < BloomBitLength) :
    b.Big.testBit i =
      (b.get ⟨BloomByteLength - 1 - i / 8, byteIndex_lt i⟩ &&& (1 <<< (i % 8).toUInt8) != 0) := by
  have hlen : b.toList.length = BloomByteLength := by simp
  rw [and_shiftLeft_ne_zero _ (Nat.mod_lt i (by norm_num)), Bloom.Big,
    testBit_ofBytesBE _ (by rw [hlen]; exact hi), hlen,
    List.getD_eq_getElem _ _ (by rw [hlen]; exact byteIndex_lt i)]
  simp only [Vector.getElem_toList]
  rfl

/-! ## Blooms of logs -/

theorem testBit_LogsBloom (logs : List Log) (n : Nat) :
    (LogsBloom Keccak256 logs).testBit n =
      logs.any fun log => (bloom9 Keccak256 (addressBytes log.Address)).testBit n ||
        log.Topics.any fun t => (bloom9 Keccak256 (topicBytes t)).testBit n := by
  have htopics : ∀ (ts : List Hash) (acc : Nat),
      (ts.foldl (fun bin b => bin ||| bloom9 Keccak256 (topicBytes b)) acc).testBit n =
        (acc.testBit n || ts.any fun t => (bloom9 Keccak256 (topicBytes t)).testBit n) :=
    fun ts acc => testBit_foldl_of_step _ (fun b n => (bloom9 Keccak256 (topicBytes b)).testBit n)
      (fun acc b n => Nat.testBit_lor _ _ n) ts acc n
  rw [LogsBloom, testBit_foldl_of_step _ (fun log n =>
      (bloom9 Keccak256 (addressBytes log.Address)).testBit n ||
        log.Topics.any fun t => (bloom9 Keccak256 (topicBytes t)).testBit n)]
  · simp
  · intro acc log m
    rw [testBit_foldl_of_step _ (fun b m => (bloom9 Keccak256 (topicBytes b)).testBit m)
      (fun acc b m => Nat.testBit_lor _ _ m), Nat.testBit_lor, Bool.or_assoc]

theorem LogsBloom_lt (logs : List Log) : LogsBloom Keccak256 logs < 2 ^ BloomBitLength := by
  apply Nat.lt_pow_two_of_testBit
  intro n hn
  have hkey : ∀ b, (bloom9 Keccak256 b).testBit n = false := by
    intro b
    rw [testBit_bloom9]
    simp only [decide_eq_false_iff_not, not_exists]
    intro i hi
    have := bloom9Index_lt (Keccak256 b) i
    omega
  simp [testBit_LogsBloom, hkey]

/-- `CreateBloom` never panics, and its bloom holds the bits of every
receipt's `LogsBloom`. -/
theorem CreateBloom_eq (receipts : List Receipt) :
    ∃ bloom, CreateBloom Keccak256 receipts = some bloom ∧
      bloom.Big = receipts.foldl (fun bin receipt => bin ||| LogsBloom Keccak256 receipt.Logs) 0 := by
  set bin := receipts.foldl (fun bin receipt => bin ||| LogsBloom Keccak256 receipt.Logs) 0
  have hbin : bin < 2 ^ BloomBitLength := by
    have hstep : ∀ (rs : List Receipt) (acc : Nat), acc < 2 ^ BloomBitLength →
        rs.foldl (fun bin receipt => bin ||| LogsBloom Keccak256 receipt.Logs) acc <
          2 ^ BloomBitLength := by
      intro rs
      induction rs with
      | nil => exact fun _ h => h
      | cons r rs ih => exact fun acc h => ih _ (Nat.or_lt_two_pow h (LogsBloom_lt _ _))
    exact hstep receipts 0 (Nat.two_pow_pos _)
  rw [show BloomBitLength = 8 * BloomByteLength from rfl] at hbin
  have hlen : (toBytesBE bin).length ≤ BloomByteLength := length_toBytesBE_le hbin
  have hcreate : CreateBloom Keccak256 receipts = BytesToBloom (toBytesBE bin) := rfl
  rw [hcreate, BytesToBloom, dif_pos hlen]
  refine ⟨_, rfl, ?_⟩
  simp [Bloom.Big, ofBytesBE_replicate_zero_append, ofBytesBE_toBytesBE]

/-- A block with no receipts has the empty bloom. -/
theorem CreateBloom_nil : CreateBloom Keccak256 [] = some (Vector.replicate BloomByteLength 0) := by
  have hzero : toBytesBE 0 = [] := by rw [toBytesBE, if_pos rfl]
  rw [CreateBloom, List.foldl_nil, hzero, BytesToBloom,
    dif_pos (show ([] : List UInt8).length ≤ BloomByteLength from Nat.zero_le _)]
  refine congrArg some (Vector.ext fun i hi => ?_)
  simp only [Vector.getElem_mk, List.getElem_toArray, List.append_nil, List.getElem_replicate,
    Vector.getElem_replicate]

/-- A bloom made by `CreateBloom` answers every lookup of a log's address or
topic. -/
theorem BloomLookup_CreateBloom {receipts : List Receipt} {bloom : Bloom}
    (hbloom : CreateBloom Keccak256 receipts = some bloom) {r : Receipt} (hr : r ∈ receipts)
    {log : Log} (hlog : log ∈ r.Logs) :
    BloomLookup Keccak256 bloom (addressBytes log.Address) = true ∧
      ∀ t ∈ log.Topics, BloomLookup Keccak256 bloom (topicBytes t) = true := by
  obtain ⟨bloom', hsome, hbig⟩ := CreateBloom_eq Keccak256 receipts
  rw [hbloom, Option.some_inj] at hsome
  subst hsome
  -- every bit of a log's key is a bit of its receipt's `LogsBloom`, hence of the bloom
  have hbits : ∀ n, (LogsBloom Keccak256 r.Logs).testBit n = true → bloom.Big.testBit n = true := by
    intro n hn
    rw [hbig, testBit_foldl_of_step _ (fun receipt n => (LogsBloom Keccak256 receipt.Logs).testBit n)
      (fun acc receipt n => Nat.testBit_lor _ _ n)]
    simp only [Nat.zero_testBit, Bool.false_or, List.any_eq_true]
    exact ⟨r, hr, hn⟩
  have hkey : ∀ b, (∀ n, (bloom9 Keccak256 b).testBit n = true →
      (LogsBloom Keccak256 r.Logs).testBit n = true) → BloomLookup Keccak256 bloom b = true := by
    intro b hb
    rw [BloomLookup_iff]
    intro i
    apply hbits
    apply hb
    rw [testBit_bloom9]
    exact decide_eq_true ⟨i, rfl⟩
  refine ⟨hkey _ fun n hn => ?_, fun t ht => hkey _ fun n hn => ?_⟩
  · rw [testBit_LogsBloom, List.any_eq_true]
    exact ⟨log, hlog, by simp [hn]⟩
  · rw [testBit_LogsBloom, List.any_eq_true]
    exact ⟨log, hlog, by simp only [Bool.or_eq_true, List.any_eq_true]; exact Or.inr ⟨t, ht, hn⟩⟩

/-- The keys whose bits a block's bloom holds: the address and the topics of
every log of its receipts. -/
def logKeys (receipts : List Receipt) : List (List UInt8) :=
  receipts.flatMap fun r => r.Logs.flatMap fun log =>
    addressBytes log.Address :: log.Topics.map topicBytes

theorem BloomLookup_of_mem_logKeys {receipts : List Receipt} {bloom : Bloom}
    (hbloom : CreateBloom Keccak256 receipts = some bloom) {key : List UInt8}
    (hkey : key ∈ logKeys receipts) : BloomLookup Keccak256 bloom key = true := by
  simp only [logKeys, List.mem_flatMap, List.mem_cons, List.mem_map] at hkey
  obtain ⟨r, hr, log, hlog, rfl | ⟨t, ht, rfl⟩⟩ := hkey
  · exact (BloomLookup_CreateBloom Keccak256 hbloom hr hlog).1
  · exact (BloomLookup_CreateBloom Keccak256 hbloom hr hlog).2 t ht

end Hash

end Btp.Types
