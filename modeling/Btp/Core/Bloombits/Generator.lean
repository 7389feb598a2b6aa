import Btp.Core.Types.Bloom9
import Btp.Lib.ExceptRun

/-!
# Rotated bloom bits

`core/bloombits/generator.go`, and the `BloomIndexer` of `btp/bloombits.go`
that drives it over a section of the chain. A generator for a section of
`sections` blocks keeps one row of `sections / 8` bytes per bloom bit.
Adding the bloom of the section's `j`-th block sets bit `j` of row `i`,
counted from the most significant bit of the row, exactly when the bloom
has bit `i`. The indexer resets a generator, adds the blooms of the
section's headers in order, and commits every row.

`indexSection_rows` says what the committed rows hold: bit `j` of row `bit`
is bit `bit` of the bloom of block `sectionIdx * size + j`. The database
write and the compression of the rows are left out: the matcher reads the
rows back as they were committed.
-/

namespace Btp.Bloombits

open ByteBits Btp.Types

inductive GeneratorError
  /-- "section count not multiple of 8" -/
  | sectionCount
  | errSectionOutOfBounds
  /-- "bloom filter with unexpected index" -/
  | unexpectedIndex
  /-- "bloom not fully generated yet" -/
  | notFullyGenerated
  | errBloomBitOutOfBounds
  deriving DecidableEq, Repr

structure Generator where
  blooms : Vector (List UInt8) BloomBitLength
  sections : Nat
  nextSec : Nat

def NewGenerator (sections : Nat) : Except GeneratorError Generator :=
  if sections % 8 ≠ 0 then .error .sectionCount
  else .ok { blooms := Vector.replicate BloomBitLength (List.replicate (sections / 8) 0),
             sections, nextSec := 0 }

def Generator.AddBloom (b : Generator) (index : Nat) (bloom : Bloom) :
    Except GeneratorError Generator :=
  if b.nextSec ≥ b.sections then .error .errSectionOutOfBounds
  else if b.nextSec ≠ index then .error .unexpectedIndex
  else
    let byteIndex := b.nextSec / 8
    let bitMask : UInt8 := 1 <<< (7 - b.nextSec % 8).toUInt8
    .ok { b with
      blooms := b.blooms.mapIdx fun i row =>
        let bloomBitMask : UInt8 := 1 <<< (i % 8).toUInt8
        if bloom.get ⟨BloomByteLength - 1 - i / 8, byteIndex_lt i⟩ &&& bloomBitMask != 0 then
          row.modify byteIndex (· ||| bitMask)
        else row
      nextSec := b.nextSec + 1 }

def Generator.Bitset (b : Generator) (idx : Nat) : Except GeneratorError (List UInt8) :=
  if b.nextSec ≠ b.sections then .error .notFullyGenerated
  else if h : idx < BloomBitLength then .ok b.blooms[idx]
  else .error .errBloomBitOutOfBounds

/-- The bloom-bits indexer while it builds one section. -/
structure BloomIndexer where
  size : Nat
  gen : Generator
  /-- `section`: the section being processed. -/
  sectionIdx : Nat

/-- `Reset` of an indexer of section size `size`, for the section `sectionIdx`. -/
def BloomIndexer.Reset (size sectionIdx : Nat) : Except GeneratorError BloomIndexer := do
  let gen ← NewGenerator size
  pure { size, gen, sectionIdx }

/-- `Process` of a header: its bloom is added at its place in the section,
and an error of `AddBloom` is dropped, leaving the generator as it was. -/
def BloomIndexer.Process (b : BloomIndexer) (number : Nat) (bloom : Bloom) : BloomIndexer :=
  match b.gen.AddBloom (number - b.sectionIdx * b.size) bloom with
  | .ok gen => { b with gen }
  | .error _ => b

/-- `Commit`: the rows of every bloom bit, in order. -/
def BloomIndexer.Commit (b : BloomIndexer) : Except GeneratorError (List (List UInt8)) :=
  (List.range BloomBitLength).mapM b.gen.Bitset

/-- The indexer's run over one section of blocks, whose blooms are
`blooms`: `Reset`, `Process` of the headers `sectionIdx * size ..` in
order, then `Commit`. -/
def indexSection (blooms : Nat → Bloom) (size sectionIdx : Nat) :
    Except GeneratorError (List (List UInt8)) := do
  let b ← BloomIndexer.Reset size sectionIdx
  let b := (List.range size).foldl
    (fun b j => b.Process (sectionIdx * size + j) (blooms (sectionIdx * size + j))) b
  b.Commit

/-! ## The rows of a generator -/

/-- The rows of `g` after the first `g.nextSec` blooms of `bloomAt` were
added: bit `j` of row `i` is bit `i` of bloom `j`, for the blooms added. -/
structure Generator.Rotated (bloomAt : Nat → Bloom) (g : Generator) : Prop where
  nextSec_le : g.nextSec ≤ g.sections
  rows : ∀ i (h : i < BloomBitLength),
    Encodes g.blooms[i] g.sections fun j => decide (j < g.nextSec) && (bloomAt j).Big.testBit i

theorem NewGenerator_eq {sections : Nat} (h8 : sections % 8 = 0) (bloomAt : Nat → Bloom) :
    ∃ g, NewGenerator sections = .ok g ∧ g.sections = sections ∧ g.nextSec = 0 ∧
      g.Rotated bloomAt := by
  refine ⟨_, by rw [NewGenerator, if_neg (by omega)], rfl, rfl, ⟨Nat.zero_le _, fun i h => ?_⟩⟩
  have hrow := encodes_replicate_zero (sections / 8)
  rw [show 8 * (sections / 8) = sections by omega] at hrow
  simpa using hrow

/-- The bit that `AddBloom` or-s into row `i` is set when bit `i` of the
bloom is. -/
theorem AddBloom_rows (bloom : Bloom) (row : List UInt8) {n j i : Nat} {f : Nat → Bool}
    (hrow : Encodes row n f) (hj : j < n) (hi : i < BloomBitLength) :
    Encodes (if bloom.get ⟨BloomByteLength - 1 - i / 8, byteIndex_lt i⟩ &&&
          ((1 : UInt8) <<< (i % 8).toUInt8) != 0 then
        row.modify (j / 8) (· ||| (1 : UInt8) <<< (7 - j % 8).toUInt8)
      else row) n fun p => f p || (p == j && bloom.Big.testBit i) := by
  rw [← testBit_Big bloom hi, one_shiftLeft_seven_sub (Nat.mod_lt j (by norm_num))]
  by_cases hbit : bloom.Big.testBit i
  · simpa [hbit] using hrow.modify_or hj
  · simpa [hbit] using hrow

/-- Adding the next bloom keeps the rows rotated, one bloom further. -/
theorem Generator.Rotated.AddBloom {bloomAt : Nat → Bloom} {g : Generator}
    (hg : g.Rotated bloomAt) (hlt : g.nextSec < g.sections) :
    ∃ g', g.AddBloom g.nextSec (bloomAt g.nextSec) = .ok g' ∧ g'.sections = g.sections ∧
      g'.nextSec = g.nextSec + 1 ∧ g'.Rotated bloomAt := by
  refine ⟨_, by rw [Generator.AddBloom, if_neg (Nat.not_le.2 hlt), if_neg (not_not.2 rfl)],
    by rfl, by rfl, ⟨by exact hlt, fun i h => ?_⟩⟩
  simp only [Vector.getElem_mapIdx]
  refine (AddBloom_rows _ _ (hg.rows i h) hlt h).congr fun p hp => ?_
  by_cases hpj : p = g.nextSec
  · subst hpj
    simp
  · have hne : (p == g.nextSec) = false := by simpa using hpj
    have hle : decide (p < g.nextSec + 1) = decide (p < g.nextSec) := by
      simp only [decide_eq_decide]; omega
    rw [hne, Bool.false_and, Bool.or_false, hle]

theorem Generator.Bitset_eq {g : Generator} (hfull : g.nextSec = g.sections) {idx : Nat}
    (h : idx < BloomBitLength) : g.Bitset idx = .ok g.blooms[idx] := by
  simp [Generator.Bitset, hfull, h]

/-! ## The indexer's run over a section -/

theorem BloomIndexer.Process_eq {b : BloomIndexer} {bloomAt : Nat → Bloom}
    (hg : b.gen.Rotated bloomAt) (hlt : b.gen.nextSec < b.gen.sections) :
    ∃ gen, (b.Process (b.sectionIdx * b.size + b.gen.nextSec) (bloomAt b.gen.nextSec)) =
      { b with gen } ∧ gen.sections = b.gen.sections ∧ gen.nextSec = b.gen.nextSec + 1 ∧
        gen.Rotated bloomAt := by
  obtain ⟨g', hadd, hsec, hnext, hrot⟩ := hg.AddBloom hlt
  refine ⟨g', ?_, hsec, hnext, hrot⟩
  simp only [BloomIndexer.Process, Nat.add_sub_cancel_left, hadd]

/-- After the first `j` headers of the section, the generator holds their
blooms. -/
theorem indexSection_process (blooms : Nat → Bloom) {size sectionIdx : Nat} (b₀ : BloomIndexer)
    (hsize : b₀.size = size) (hsection : b₀.sectionIdx = sectionIdx)
    (hsec : b₀.gen.sections = size) (hnext : b₀.gen.nextSec = 0)
    (h₀ : b₀.gen.Rotated fun j => blooms (sectionIdx * size + j)) :
    ∀ j ≤ size, ∃ b : BloomIndexer,
      (List.range j).foldl
          (fun b j => b.Process (sectionIdx * size + j) (blooms (sectionIdx * size + j))) b₀ = b ∧
        b.size = size ∧ b.sectionIdx = sectionIdx ∧ b.gen.sections = size ∧ b.gen.nextSec = j ∧
        b.gen.Rotated fun j => blooms (sectionIdx * size + j) := by
  intro j
  induction j with
  | zero => exact fun _ => ⟨b₀, rfl, hsize, hsection, hsec, hnext, h₀⟩
  | succ j ih =>
    intro hj
    obtain ⟨b, hfold, hbsize, hbsection, hbsec, hbnext, hrot⟩ := ih (by omega)
    obtain ⟨gen, hproc, hgsec, hgnext, hgrot⟩ := BloomIndexer.Process_eq hrot (by omega)
    refine ⟨{ b with gen }, ?_, hbsize, hbsection, by rw [hgsec, hbsec], by rw [hgnext, hbnext],
      hgrot⟩
    rw [List.range_succ, List.foldl_concat, hfold, ← hproc, hbsize, hbsection, hbnext]

/-- What the indexer commits for a section: every row of bits, row `bit`
having bit `j` set exactly when the bloom of block `sectionIdx * size + j`
has bit `bit`. -/
theorem indexSection_rows (blooms : Nat → Bloom) {size : Nat} (h8 : size % 8 = 0)
    (sectionIdx : Nat) :
    ∃ rows, indexSection blooms size sectionIdx = .ok rows ∧ rows.length = BloomBitLength ∧
      ∀ bit (h : bit < rows.length),
        Encodes rows[bit] size fun j => (blooms (sectionIdx * size + j)).Big.testBit bit := by
  obtain ⟨g, hnew, hgsec, hgnext, hgrot⟩ :=
    NewGenerator_eq h8 fun j => blooms (sectionIdx * size + j)
  have hreset : BloomIndexer.Reset size sectionIdx = .ok ⟨size, g, sectionIdx⟩ := by
    simp [BloomIndexer.Reset, hnew]
  obtain ⟨b, hfold, -, -, hbsec, hbnext, hrot⟩ :=
    indexSection_process blooms ⟨size, g, sectionIdx⟩ rfl rfl hgsec hgnext hgrot size le_rfl
  have hcommit : b.Commit = .ok ((List.range BloomBitLength).map fun i => b.gen.blooms[i]!) := by
    apply ExceptRun.mapM_eq_ok
    intro i hi
    rw [List.mem_range] at hi
    rw [Generator.Bitset_eq (by rw [hbsec, hbnext]) hi, getElem!_pos b.gen.blooms i hi]
  dsimp only at hfold hbsec hrot
  have hrun : indexSection blooms size sectionIdx =
      .ok ((List.range BloomBitLength).map fun i => b.gen.blooms[i]!) := by
    rw [indexSection, hreset, ExceptRun.bind_eq_ok]
    refine ⟨_, rfl, ?_⟩
    dsimp only
    rw [hfold, hcommit]
  refine ⟨_, hrun, by rw [List.length_map, List.length_range], fun bit h => ?_⟩
  simp only [List.length_map, List.length_range] at h
  simp only [List.getElem_map, List.getElem_range, getElem!_pos b.gen.blooms bit h]
  have hrow := hrot.rows bit h
  rw [hbsec] at hrow
  refine hrow.congr fun p hp => ?_
  simp [hbnext, hp]

/-- Only a section size that is a multiple of 8 lets the indexer commit a
section: `NewGenerator` refuses any other. -/
theorem indexSection_mod_eight {blooms : Nat → Bloom} {size sectionIdx : Nat}
    {rows : List (List UInt8)} (h : indexSection blooms size sectionIdx = .ok rows) :
    size % 8 = 0 := by
  by_contra h8
  have hreset : BloomIndexer.Reset size sectionIdx = .error .sectionCount := by
    simp [BloomIndexer.Reset, NewGenerator, h8]
  rw [indexSection, hreset] at h
  cases h

/-- The row of bloom bit `bit` of section `sectionIdx`, as the index serves
it once committed. -/
def committedRow (blooms : Nat → Bloom) (size sectionIdx bit : Nat) : List UInt8 :=
  match indexSection blooms size sectionIdx with
  | .ok rows => rows.getD bit []
  | .error _ => []

theorem indexSection_eq_committedRow (blooms : Nat → Bloom) {size : Nat} (h8 : size % 8 = 0)
    (sectionIdx : Nat) :
    indexSection blooms size sectionIdx =
      .ok ((List.range BloomBitLength).map (committedRow blooms size sectionIdx)) := by
  obtain ⟨rows, hrows, hlen, -⟩ := indexSection_rows blooms h8 sectionIdx
  rw [hrows]
  refine congrArg Except.ok ?_
  apply List.ext_getElem (by rw [List.length_map, List.length_range, hlen])
  intro bit h _
  rw [List.getElem_map, List.getElem_range, committedRow, hrows]
  exact (List.getD_eq_getElem _ _ h).symm

end Btp.Bloombits
