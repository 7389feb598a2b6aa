import Btp.Core.Bloombits.Generator
import Btp.Lib.GoSlice

/-!
# The bloom-bits matcher

`core/bloombits/matcher.go`, run sequentially. `NewMatcher` turns every
filter group into the `calcBloomIndexes` of its clauses, and leaves out the
groups that are empty or hold a nil clause, which let every block through.
`run` feeds the sections of `[begin, end]` to one `subMatch` stage per
group. A stage ANDs the three bit rows of each clause, ORs the clauses,
ANDs the result into the section's bitset, and forwards the section if a
bit is left. `Start` turns each forwarded section into the numbers of the
blocks whose bit is set within `[begin, end]`, and skips a zero byte at
once when it stands at a byte boundary.

The goroutines, channels and retrieval schedulers are replaced by their
sequential composition: every stage handles the sections in the order it
receives them. The bit row of a bloom bit for a section comes from
`fetch bit section`. `bitutil.ANDBytes`, `ORBytes` and `TestBytes` of
`common/bitutil`, which is not part of this tree, are modelled by their
byte-by-byte versions.

Block numbers, section numbers and the section size are `uint64`, as in
the source; `Start` panics (`none`) on a zero section size.
-/

namespace Btp.Bloombits

open ByteBits Btp.Types

/-- `bloomIndexes`: the three bloom bits of a key. -/
abbrev bloomIndexes := Vector Nat 3

/-! ## `common/bitutil` -/

/-- `bitutil.ANDBytes(a, a, b)`: the first `min (len a) (len b)` bytes of
`a` and-ed with those of `b`, the rest of `a` as it was. -/
def ANDBytes : List UInt8 → List UInt8 → List UInt8
  | x :: a, y :: b => (x &&& y) :: ANDBytes a b
  | a, _ => a

/-- `bitutil.ORBytes(a, a, b)`. -/
def ORBytes : List UInt8 → List UInt8 → List UInt8
  | x :: a, y :: b => (x ||| y) :: ORBytes a b
  | a, _ => a

/-- `bitutil.TestBytes`: whether a byte is nonzero. -/
def TestBytes (p : List UInt8) : Bool := p.any (· != 0)

/-! ## The matcher -/

section Hash

variable (Keccak256 : List UInt8 → Vector UInt8 32)

theorem calcBloomIndexes_byte_lt (i : Fin 3) : 2 * i.val < 32 := by omega

theorem calcBloomIndexes_byte_succ_lt (i : Fin 3) : 2 * i.val + 1 < 32 := by omega

def calcBloomIndexes (b : List UInt8) : bloomIndexes :=
  let b := Keccak256 b
  Vector.ofFn fun i : Fin 3 =>
    (((b.get ⟨2 * i.val, calcBloomIndexes_byte_lt i⟩).toNat <<< 8) &&& 2047) +
      (b.get ⟨2 * i.val + 1, calcBloomIndexes_byte_succ_lt i⟩).toNat

structure Matcher where
  sectionSize : UInt64
  filters : List (List bloomIndexes)

/-- `NewMatcher`, for filter groups whose clauses may be nil (`none`). -/
def NewMatcher (sectionSize : UInt64) (filters : List (List (Option (List UInt8)))) :
    Matcher where
  sectionSize
  filters := filters.filterMap fun filter =>
    if filter.length = 0 then none
    else filter.mapM fun clause => clause.map (calcBloomIndexes Keccak256)

end Hash

/-- `partialMatches`: a section and, once some stage has seen it, its bitset. -/
structure partialMatches where
  /-- `section` -/
  sectionIdx : UInt64
  bitset : Option (List UInt8)

/-- `andVector` of `subMatch` for one clause: the row of its first bit
copied into `n` fresh bytes, and-ed with the rows of the other two. -/
def andVector (n : Nat) (data : Nat → List UInt8) (bits : bloomIndexes) : List UInt8 :=
  ANDBytes (ANDBytes (GoSlice.write (List.replicate n 0) 0 ((data bits[0]).take n)) (data bits[1]))
    (data bits[2])

/-- `orVector` of `subMatch`: the clauses' `andVector`s or-ed together, and
`n` zero bytes for a group without clauses. -/
def orVector (n : Nat) (data : Nat → List UInt8) : List bloomIndexes → List UInt8
  | [] => List.replicate n 0
  | bits :: rest =>
    rest.foldl (fun orVector bits => ORBytes orVector (andVector n data bits)) (andVector n data bits)

/-- One stage of the pipeline on one section: the section is forwarded with
its new bitset, or dropped when no bit is left. -/
def Matcher.subMatch (m : Matcher) (fetch : Nat → UInt64 → List UInt8)
    (bloom : List bloomIndexes) (subres : partialMatches) : Option partialMatches :=
  let n := (m.sectionSize / 8).toNat
  let orVector := orVector n (fetch · subres.sectionIdx) bloom
  let orVector := match subres.bitset with
    | some bitset => ANDBytes orVector bitset
    | none => orVector
  if TestBytes orVector then some ⟨subres.sectionIdx, some orVector⟩ else none

/-- `run`: the sections `begin / sectionSize ..= end / sectionSize`, each with
a full bitset, through every stage in turn. `none` when the division panics
on a zero section size, and when `end / sectionSize` is the largest
`uint64`, where the source's loop counter wraps and never ends. -/
def Matcher.run (m : Matcher) (fetch : Nat → UInt64 → List UInt8) (begin end_ : UInt64) :
    Option (List partialMatches) :=
  if m.sectionSize = 0 then none
  else
    let lo := begin / m.sectionSize
    let hi := end_ / m.sectionSize
    if hi = 0xFFFFFFFFFFFFFFFF then none
    else
      let source := (List.range' lo.toNat (hi.toNat + 1 - lo.toNat)).map fun i =>
        ({ sectionIdx := i.toUInt64,
           bitset := some (List.replicate (m.sectionSize / 8).toNat 0xff) } : partialMatches)
      some (m.filters.foldl (fun next bloom => next.filterMap (m.subMatch fetch bloom)) source)

/-- The loop of `Start` over the blocks `i ..= last` of a section that starts
at `sectionStart`, emitting the blocks whose bit is set. A zero byte met at
a byte boundary is skipped whole. `none` when the bitset is indexed out of
range, a panic; the loop runs at most `sectionSize + 1` times, which `fuel`
allows. -/
def emitBlocks (bitset : List UInt8) (sectionStart last : UInt64) :
    Nat → UInt64 → Option (List UInt64)
  | 0, _ => none
  | fuel + 1, i =>
    if i ≤ last then
      match bitset[((i - sectionStart) / 8).toNat]? with
      | none => none
      | some next =>
        if next = 0 then
          emitBlocks bitset sectionStart last fuel ((if i % 8 = 0 then i + 7 else i) + 1)
        else if next &&& (1 <<< (7 - i % 8).toUInt8) != 0 then
          (i :: ·) <$> emitBlocks bitset sectionStart last fuel (i + 1)
        else emitBlocks bitset sectionStart last fuel (i + 1)
    else some []

/-- The blocks `Start` emits for one forwarded section. -/
def Matcher.emitSection (m : Matcher) (begin end_ : UInt64) (res : partialMatches) :
    Option (List UInt64) :=
  let sectionStart := res.sectionIdx * m.sectionSize
  let first := if begin > sectionStart then begin else sectionStart
  let last := if end_ < sectionStart + m.sectionSize - 1 then end_
    else sectionStart + m.sectionSize - 1
  emitBlocks (res.bitset.getD []) sectionStart last (m.sectionSize.toNat + 1) first

/-- `Start`: the block numbers sent on the results channel, in order. -/
def Matcher.Start (m : Matcher) (fetch : Nat → UInt64 → List UInt8) (begin end_ : UInt64) :
    Option (List UInt64) := do
  let sink ← m.run fetch begin end_
  let results ← sink.mapM (m.emitSection begin end_)
  pure results.flatten

/-! ## What the matcher is for -/

section Hash

variable (Keccak256 : List UInt8 → Vector UInt8 32)

/-- A filter group lets every block through when it has no clause or holds a
nil clause. -/
def wildcard (group : List (Option (List UInt8))) : Bool :=
  group.isEmpty || group.any Option.isNone

/-- Whether a block with the bloom `bloom` may hold what the filters ask for:
every group that is not a wildcard has a clause that the bloom may hold. -/
def bloomMatches (bloom : Bloom) (filters : List (List (Option (List UInt8)))) : Bool :=
  filters.all fun group => wildcard group || group.any fun clause => clause.any (BloomLookup Keccak256 bloom)

end Hash

/-! ## Bit rows -/

@[simp] theorem length_ANDBytes : ∀ a b : List UInt8, (ANDBytes a b).length = a.length
  | _ :: a, _ :: b => by simp [ANDBytes, length_ANDBytes a b]
  | [], _ => rfl
  | _ :: _, [] => rfl

@[simp] theorem length_ORBytes : ∀ a b : List UInt8, (ORBytes a b).length = a.length
  | _ :: a, _ :: b => by simp [ORBytes, length_ORBytes a b]
  | [], _ => rfl
  | _ :: _, [] => rfl

theorem getD_ANDBytes : ∀ {a b : List UInt8}, a.length ≤ b.length →
    ∀ j, (ANDBytes a b).getD j 0 = a.getD j 0 &&& b.getD j 0
  | _ :: _, _ :: _, _, 0 => rfl
  | _ :: a, _ :: b, h, j + 1 => getD_ANDBytes (a := a) (b := b) (by simpa using h) j
  | [], _, _, _ => by simp [ANDBytes]
  | _ :: _, [], h, _ => by simp at h

theorem getD_ORBytes : ∀ {a b : List UInt8}, b.length ≤ a.length →
    ∀ j, (ORBytes a b).getD j 0 = a.getD j 0 ||| b.getD j 0
  | _ :: _, _ :: _, _, 0 => rfl
  | _ :: a, _ :: b, h, j + 1 => getD_ORBytes (a := a) (b := b) (by simpa using h) j
  | _, [], _, _ => by cases ‹List UInt8› <;> simp [ORBytes]
  | [], _ :: _, h, _ => by simp at h

theorem encodes_ANDBytes {a b : List UInt8} {n : Nat} {f g : Nat → Bool}
    (ha : Encodes a n f) (hb : Encodes b n g) : Encodes (ANDBytes a b) n fun p => f p && g p := by
  have hlen : a.length ≤ b.length := by have := ha.length; have := hb.length; omega
  refine ⟨by rw [length_ANDBytes, ha.length], fun p => ?_⟩
  have hfa := ha.bitAt_eq p
  have hgb := hb.bitAt_eq p
  unfold bitAt at hfa hgb ⊢
  rw [getD_ANDBytes hlen, testMsb_and _ _ (Nat.mod_lt p (by norm_num)), hfa, hgb]
  cases decide (p < n) <;> simp

theorem encodes_ORBytes {a b : List UInt8} {n : Nat} {f g : Nat → Bool}
    (ha : Encodes a n f) (hb : Encodes b n g) : Encodes (ORBytes a b) n fun p => f p || g p := by
  have hlen : b.length ≤ a.length := by have := ha.length; have := hb.length; omega
  refine ⟨by rw [length_ORBytes, ha.length], fun p => ?_⟩
  have hfa := ha.bitAt_eq p
  have hgb := hb.bitAt_eq p
  unfold bitAt at hfa hgb ⊢
  rw [getD_ORBytes hlen, testMsb_or, hfa, hgb]
  cases decide (p < n) <;> simp

theorem TestBytes_iff {bits : List UInt8} {n : Nat} {f : Nat → Bool} (h : Encodes bits n f) :
    TestBytes bits = true ↔ ∃ p < n, f p = true :=
  h.any_ne_zero

/-- Whether a bloom holds the three bits of a clause. -/
def clauseHit (bloom : Bloom) (bits : bloomIndexes) : Bool :=
  decide (∀ k : Fin 3, bloom.Big.testBit bits[k] = true)

/-- Whether a bloom holds the bits of some clause of a group. -/
def groupHit (bloom : Bloom) (group : List bloomIndexes) : Bool :=
  group.any (clauseHit bloom)

section Rows

/-! The rows of a section: row `bit` holds bit `bit` of the blooms of the
section's blocks, `bloomAt j` being the bloom of its block `j`. -/

variable {n : Nat} {data : Nat → List UInt8} {bloomAt : Nat → Bloom}
  (hdata : ∀ bit < BloomBitLength, Encodes (data bit) (8 * n) fun j => (bloomAt j).Big.testBit bit)
include hdata

theorem encodes_andVector {bits : bloomIndexes} (hbits : ∀ k : Fin 3, bits[k] < BloomBitLength) :
    Encodes (andVector n data bits) (8 * n) fun j => clauseHit (bloomAt j) bits := by
  have hrow : ∀ k (h : k < 3), Encodes (data bits[k]) (8 * n) fun j => (bloomAt j).Big.testBit bits[k] :=
    fun k h => hdata _ (by simpa using hbits ⟨k, h⟩)
  have hcopy :
      GoSlice.write (List.replicate n (0 : UInt8)) 0 ((data bits[0]).take n) = data bits[0] := by
    have hlen : (data bits[0]).length = n := by have := (hrow 0 (by norm_num)).length; omega
    simp [GoSlice.write, List.take_of_length_le hlen.le, hlen]
  unfold andVector
  rw [hcopy]
  refine (encodes_ANDBytes (encodes_ANDBytes (hrow 0 (by norm_num)) (hrow 1 (by norm_num)))
    (hrow 2 (by norm_num))).congr fun j _ => ?_
  simp [clauseHit, Fin.forall_fin_succ, Bool.and_assoc]

theorem encodes_orVector {group : List bloomIndexes}
    (hgroup : ∀ bits ∈ group, ∀ k : Fin 3, bits[k] < BloomBitLength) :
    Encodes (orVector n data group) (8 * n) fun j => groupHit (bloomAt j) group := by
  cases group with
  | nil => simpa [orVector, groupHit] using encodes_replicate_zero n
  | cons bits rest =>
    -- the fold ors one clause's row in at a time
    have hfold : ∀ (rest : List bloomIndexes) (acc : List UInt8) (f : Nat → Bool),
        (∀ bits ∈ rest, ∀ k : Fin 3, bits[k] < BloomBitLength) → Encodes acc (8 * n) f →
        Encodes (rest.foldl (fun orVector bits => ORBytes orVector (andVector n data bits)) acc)
          (8 * n) fun j => f j || groupHit (bloomAt j) rest := by
      intro rest
      induction rest with
      | nil => intro acc f _ hacc; simpa [groupHit] using hacc
      | cons b rest ih =>
        intro acc f hrest hacc
        have hb := encodes_andVector hdata (hrest b (by simp))
        refine (ih _ _ (fun b' hb' => hrest b' (by simp [hb'])) (encodes_ORBytes hacc hb)).congr
          fun j _ => ?_
        simp [groupHit, Bool.or_assoc]
    have hfirst := encodes_andVector hdata (hgroup bits (by simp))
    refine (hfold rest _ _ (fun b hb => hgroup b (by simp [hb])) hfirst).congr fun j _ => ?_
    simp [groupHit]

end Rows

/-! ## The filter groups -/

section Hash

variable (Keccak256 : List UInt8 → Vector UInt8 32)

/-- `calcBloomIndexes` finds the bits `bloom9` sets: `(b0 << 8) & 2047 + b1`
is `(b1 + (b0 << 8)) & 2047` for a byte `b1`. -/
theorem calcBloomIndexes_getElem (b : List UInt8) (i : Fin 3) :
    (calcBloomIndexes Keccak256 b)[i] = bloom9Index (Keccak256 b) i := by
  have key : ∀ x y : Nat, y < 256 → ((x <<< 8) &&& 2047) + y = (y + (x <<< 8)) &&& 2047 := by
    intro x y hy
    rw [Nat.shiftLeft_eq, show (2047 : Nat) = 2 ^ 11 - 1 by norm_num,
      Nat.and_two_pow_sub_one_eq_mod, Nat.and_two_pow_sub_one_eq_mod]
    omega
  simp only [calcBloomIndexes, bloom9Index, Fin.getElem_fin, Vector.getElem_ofFn, Vector.get_eq_getElem]
  exact key _ _ (UInt8.toNat_lt _)

theorem calcBloomIndexes_lt (b : List UInt8) (i : Fin 3) :
    (calcBloomIndexes Keccak256 b)[i] < BloomBitLength := by
  rw [calcBloomIndexes_getElem]
  exact bloom9Index_lt _ _

/-- A clause's bits are in a bloom exactly when `BloomLookup` finds the clause. -/
theorem clauseHit_calcBloomIndexes (bloom : Bloom) (b : List UInt8) :
    clauseHit bloom (calcBloomIndexes Keccak256 b) = BloomLookup Keccak256 bloom b := by
  rw [Bool.eq_iff_iff, BloomLookup_iff, clauseHit, decide_eq_true_iff]
  simp only [calcBloomIndexes_getElem]

/-- Compiling a group with a nil clause gives nothing. -/
theorem mapM_map_of_any_isNone {α β : Type} (f : α → β) :
    ∀ group : List (Option α), group.any Option.isNone = true →
      (group.mapM fun (clause : Option α) => clause.map f) = none
  | [], h => by simp at h
  | none :: _, _ => rfl
  | some _ :: group, h => by
    simp only [List.any_cons, Option.isNone_some, Bool.false_or] at h
    simp [List.mapM_cons, mapM_map_of_any_isNone f group h]

/-- Compiling a group without a nil clause compiles every clause. -/
theorem mapM_map_of_all_isSome {α β : Type} (f : α → β) :
    ∀ group : List (Option α), group.any Option.isNone = false →
      (group.mapM fun (clause : Option α) => clause.map f) = some ((group.filterMap id).map f)
  | [], _ => rfl
  | none :: _, h => by simp at h
  | some _ :: group, h => by
    simp only [List.any_cons, Option.isNone_some, Bool.false_or] at h
    simp [List.mapM_cons, mapM_map_of_all_isSome f group h]

/-- A group's clauses, compiled: a nil clause leaves nothing to compile, and
otherwise the bloom holds some compiled clause exactly when it may hold one
of the group's keys. -/
theorem all_mapM_calcBloomIndexes (bloom : Bloom) (group : List (Option (List UInt8))) :
    (group.mapM fun (clause : Option (List UInt8)) => clause.map (calcBloomIndexes Keccak256)).all
        (groupHit bloom) =
      (group.any Option.isNone || group.any fun clause => clause.any (BloomLookup Keccak256 bloom)) := by
  cases hnone : group.any Option.isNone with
  | true => rw [mapM_map_of_any_isNone _ group hnone]; rfl
  | false =>
    rw [mapM_map_of_all_isSome _ group hnone, Option.all_some, Bool.false_or, groupHit,
      List.any_map, List.any_filterMap]
    congr 1
    funext clause
    cases clause <;> simp [clauseHit_calcBloomIndexes]

/-- The groups of `NewMatcher` are what `bloomMatches` asks of a bloom. -/
theorem NewMatcher_filters_all (bloom : Bloom) (sectionSize : UInt64)
    (filters : List (List (Option (List UInt8)))) :
    (NewMatcher Keccak256 sectionSize filters).filters.all (groupHit bloom) =
      bloomMatches Keccak256 bloom filters := by
  simp only [NewMatcher, List.all_filterMap, bloomMatches]
  congr 1
  funext group
  by_cases hg : group.length = 0
  · simp [List.length_eq_zero_iff.1 hg, wildcard]
  · rw [if_neg hg]
    have hne : group.isEmpty = false := by
      simpa [List.isEmpty_iff, ← List.length_eq_zero_iff] using hg
    rw [wildcard, hne, Bool.false_or, ← all_mapM_calcBloomIndexes]
    cases group.mapM fun (clause : Option (List UInt8)) => clause.map (calcBloomIndexes Keccak256) <;>
      rfl

theorem NewMatcher_filters_lt (sectionSize : UInt64) (filters : List (List (Option (List UInt8)))) :
    ∀ group ∈ (NewMatcher Keccak256 sectionSize filters).filters, ∀ bits ∈ group,
      ∀ k : Fin 3, bits[k] < BloomBitLength := by
  intro group hgroup bits hbits k
  simp only [NewMatcher, List.mem_filterMap] at hgroup
  obtain ⟨g, -, hg⟩ := hgroup
  split at hg
  · cases hg
  · cases hnone : g.any Option.isNone with
    | true => rw [mapM_map_of_any_isNone _ g hnone] at hg; cases hg
    | false =>
      rw [mapM_map_of_all_isSome _ g hnone, Option.some_inj] at hg
      subst hg
      obtain ⟨c, -, rfl⟩ := List.mem_map.1 hbits
      exact calcBloomIndexes_lt Keccak256 c k

end Hash

/-! ## The pipeline on one section -/

/-- What the stages so far make of section `s`, when `P j` says whether its
block `j` passed them all: the section is dropped only when no block of it
passed, and is otherwise forwarded with a bitset holding `P`. -/
def Forwarded (size : Nat) (s : UInt64) (P : Nat → Bool) : Option partialMatches → Prop
  | none => ∀ j < size, P j = false
  | some pm => pm.sectionIdx = s ∧ ∃ w, pm.bitset = some w ∧ Encodes w size P

section Pipeline

variable (m : Matcher) (fetch : Nat → UInt64 → List UInt8) {s : UInt64} {bloomAt : Nat → Bloom}
  (hdata : ∀ bit < BloomBitLength, Encodes (fetch bit s) (8 * (m.sectionSize / 8).toNat)
    fun j => (bloomAt j).Big.testBit bit)
include hdata

/-- One stage keeps, of the blocks that passed before, those whose bloom
holds some clause of its group. -/
theorem subMatch_forwarded {group : List bloomIndexes}
    (hgroup : ∀ bits ∈ group, ∀ k : Fin 3, bits[k] < BloomBitLength)
    {P : Nat → Bool} {pm : partialMatches}
    (hpm : Forwarded (8 * (m.sectionSize / 8).toNat) s P (some pm)) :
    Forwarded (8 * (m.sectionSize / 8).toNat) s (fun j => P j && groupHit (bloomAt j) group)
      (m.subMatch fetch group pm) := by
  obtain ⟨hs, w, hw, hwenc⟩ := hpm
  subst hs
  have hand := encodes_ANDBytes (encodes_orVector hdata hgroup) hwenc
  unfold Matcher.subMatch
  simp only [hw]
  split
  · exact ⟨rfl, _, rfl, hand.congr fun j _ => Bool.and_comm _ _⟩
  · -- no bit is left: no block of the section passed
    rename_i htest
    intro j hj
    show (P j && groupHit (bloomAt j) group) = false
    rw [Bool.and_comm]
    by_contra hpass
    exact htest ((TestBytes_iff hand).2 ⟨j, hj, Bool.not_eq_false _ ▸ hpass⟩)

/-- The stages in turn keep the blocks whose bloom holds a clause of every
group. -/
theorem foldl_subMatch_forwarded :
    ∀ groups : List (List bloomIndexes),
      (∀ group ∈ groups, ∀ bits ∈ group, ∀ k : Fin 3, bits[k] < BloomBitLength) →
      ∀ {P : Nat → Bool} {x : Option partialMatches},
        Forwarded (8 * (m.sectionSize / 8).toNat) s P x →
        Forwarded (8 * (m.sectionSize / 8).toNat) s
          (fun j => P j && groups.all (groupHit (bloomAt j)))
          (groups.foldl (fun o group => o.bind (m.subMatch fetch group)) x)
  | [], _, P, x, hx => by simpa using hx
  | group :: groups, hgroups, P, x, hx => by
    have hnext : Forwarded (8 * (m.sectionSize / 8).toNat) s
        (fun j => P j && groupHit (bloomAt j) group) (x.bind (m.subMatch fetch group)) := by
      cases x with
      | none => intro j hj; simp [hx j hj]
      | some pm => exact subMatch_forwarded m fetch hdata (hgroups group (by simp)) hx
    have := foldl_subMatch_forwarded groups (fun g hg => hgroups g (by simp [hg])) hnext
    simpa [Bool.and_assoc] using this

end Pipeline

/-- Running the stages over the list of sections is running them over each
section by itself. -/
theorem foldl_filterMap_eq {α β : Type} (f : β → α → Option α) :
    ∀ (stages : List β) (l : List α),
      stages.foldl (fun next g => next.filterMap (f g)) l =
        l.filterMap fun x => stages.foldl (fun o g => o.bind (f g)) (some x)
  | [], l => by simp
  | g :: stages, l => by
    have hnone : ∀ stages : List β, stages.foldl (fun o g => o.bind (f g)) none = none := by
      intro stages
      induction stages with
      | nil => rfl
      | cons g stages ih => exact ih
    rw [List.foldl_cons, foldl_filterMap_eq f stages, List.filterMap_filterMap]
    congr 1
    funext x
    show _ = List.foldl _ (f g x) stages
    cases f g x with
    | none => exact (hnone stages).symm
    | some y => rfl

/-! ## The result loop -/

theorem filter_range'_skip {p : Nat → Bool} {i c d : Nat}
    (hd : ∀ k, i ≤ k → k < i + d → p k = false) :
    (List.range' i c).filter p = (List.range' (i + d) (c - d)).filter p := by
  by_cases hcd : c ≤ d
  · rw [Nat.sub_eq_zero_of_le hcd, List.range'_zero, List.filter_nil, List.filter_eq_nil_iff]
    intro k hk
    rw [List.mem_range'_1] at hk
    simp [hd k hk.1 (by omega)]
  · have hsplit : List.range' i c = List.range' i d ++ List.range' (i + d) (c - d) := by
      rw [List.range'_append_1, Nat.add_sub_cancel' (by omega)]
    rw [hsplit, List.filter_append, List.filter_eq_nil_iff.2, List.nil_append]
    intro k hk
    rw [List.mem_range'_1] at hk
    simp [hd k hk.1 hk.2]

theorem filter_range'_of_pos {p : Nat → Bool} {i c : Nat} (hp : p i = true) (hc : 0 < c) :
    (List.range' i c).filter p = i :: (List.range' (i + 1) (c - 1)).filter p := by
  obtain ⟨c, rfl⟩ : ∃ c', c = c' + 1 := ⟨c - 1, by omega⟩
  rw [List.range'_succ, List.filter_cons_of_pos hp, Nat.add_sub_cancel]

/-- `1 << (7 - r)` for a bit position `r < 8` held in a `uint64` is the
MSB-first mask of bit `r`. -/
theorem one_shiftLeft_seven_sub_toUInt8 (r : UInt64) (hr : r.toNat < 8) :
    (1 : UInt8) <<< (7 - r).toUInt8 = 0x80 >>> r.toNat.toUInt8 := by
  have key : ∀ k : Fin 8,
      (1 : UInt8) <<< (7 - k.val.toUInt64).toUInt8 = 0x80 >>> k.val.toUInt8 := by
    decide
  simpa [Nat.toUInt64, UInt64.ofNat_toNat] using key ⟨r.toNat, hr⟩

section Loop

/-! The loop over the blocks of one section, which starts at the block
`sectionStart`, a multiple of 8, and ends at `last`, within the bitset and
far enough below `2^64` that the counter never wraps. -/

variable {bitset : List UInt8} {sectionStart last : UInt64}
  (h8 : sectionStart.toNat % 8 = 0)
  (hlast : last.toNat < sectionStart.toNat + 8 * bitset.length)
  (hwrap : last.toNat + 8 < 2 ^ 64)
include h8 hlast hwrap

/-- From block `i` on, the loop emits, in order, the blocks up to `last`
whose bit is set. It goes by induction on the fuel; a zero byte at a byte
boundary holds no set bit, so skipping it drops no block. -/
theorem emitBlocks_eq : ∀ (fuel : Nat) (i : UInt64), sectionStart.toNat ≤ i.toNat →
    last.toNat + 1 - i.toNat < fuel →
    emitBlocks bitset sectionStart last fuel i =
      some (((List.range' i.toNat (last.toNat + 1 - i.toNat)).filter
        fun k => bitAt bitset (k - sectionStart.toNat)).map Nat.toUInt64)
  | 0, _, _, hfuel => absurd hfuel (Nat.not_lt_zero _)
  | fuel + 1, i, hi, hfuel => by
    rw [emitBlocks]
    by_cases hle : i ≤ last
    swap
    · -- past the section's last block
      rw [if_neg hle, show last.toNat + 1 - i.toNat = 0 by rw [UInt64.le_iff_toNat_le] at hle; omega]
      rfl
    have hle' : i.toNat ≤ last.toNat := UInt64.le_iff_toNat_le.1 hle
    rw [if_pos hle]
    -- the byte that holds the bit of block `i`
    have hq : ((i - sectionStart) / 8).toNat = (i.toNat - sectionStart.toNat) / 8 := by
      rw [UInt64.toNat_div, UInt64.toNat_sub_of_le _ _ (UInt64.le_iff_toNat_le.2 hi)]
      rfl
    have hqlt : (i.toNat - sectionStart.toNat) / 8 < bitset.length := by omega
    rw [hq, List.getElem?_eq_getElem hqlt]
    dsimp only
    have hbyte : ∀ k, i.toNat ≤ k → (k - sectionStart.toNat) / 8 = (i.toNat - sectionStart.toNat) / 8 →
        bitAt bitset (k - sectionStart.toNat) =
          testMsb bitset[(i.toNat - sectionStart.toNat) / 8] ((k - sectionStart.toNat) % 8) := by
      intro k hk hkq
      rw [bitAt_eq_testMsb (by omega)]
      simp only [hkq]
    have hmod : (i % 8).toNat = i.toNat % 8 := UInt64.toNat_mod _ _
    have hsucc : (i + 1).toNat = i.toNat + 1 := by
      rw [UInt64.toNat_add]
      exact Nat.mod_eq_of_lt (by simp; omega)
    by_cases h0 : bitset[(i.toNat - sectionStart.toNat) / 8] = 0
    · rw [if_pos h0]
      by_cases hi8 : i % 8 = 0
      · -- a zero byte at a byte boundary: its eight blocks are skipped
        have hi8' : i.toNat % 8 = 0 := by rw [← hmod, hi8]; rfl
        have hskip : (i + 7 + 1).toNat = i.toNat + 8 := by
          rw [UInt64.toNat_add, UInt64.toNat_add]
          simp only [UInt64.reduceToNat]
          rw [Nat.mod_eq_of_lt (by omega), Nat.mod_eq_of_lt (by omega)]
        rw [if_pos hi8, emitBlocks_eq fuel _ (by omega) (by omega), hskip,
          filter_range'_skip (i := i.toNat) (d := 8) fun k hk hk8 => by
            rw [hbyte k hk (by omega), h0, testMsb_zero], Nat.sub_sub]
      · rw [if_neg hi8, emitBlocks_eq fuel _ (by omega) (by omega), hsucc,
          filter_range'_skip (i := i.toNat) (d := 1) fun k hk hk1 => by
            rw [hbyte k hk (by omega), h0, testMsb_zero], Nat.sub_sub]
    · rw [if_neg h0]
      -- the bit test of the source is the bit of block `i`
      have htest : (bitset[(i.toNat - sectionStart.toNat) / 8] &&&
            (1 <<< (7 - i % 8).toUInt8) != 0) = bitAt bitset (i.toNat - sectionStart.toNat) := by
        rw [hbyte i.toNat le_rfl rfl, one_shiftLeft_seven_sub_toUInt8 _ (by omega), hmod,
          show (i.toNat - sectionStart.toNat) % 8 = i.toNat % 8 by omega]
        rfl
      rw [htest, emitBlocks_eq fuel _ (by omega) (by omega), hsucc]
      split
      · rename_i hbit
        rw [filter_range'_of_pos (p := fun k => bitAt bitset (k - sectionStart.toNat)) hbit (by omega)]
        simp [UInt64.ofNat_toNat, Nat.toUInt64, show last.toNat + 1 - (i.toNat + 1) =
          last.toNat + 1 - i.toNat - 1 by omega]
      · rename_i hbit
        rw [filter_range'_skip (i := i.toNat) (d := 1) fun k hk hk1 => by
          rw [show k = i.toNat by omega]; simpa using hbit, Nat.sub_sub]

end Loop

/-- The blocks of section `s` within `[begin, end]`. -/
def sectionBlocks (size begin end_ s : Nat) : List Nat :=
  List.range' (max begin (s * size)) (min (end_ + 1) (s * size + size) - max begin (s * size))

/-- A forwarded section of a section size that is a positive multiple of 8,
below `end`, that ends by `2^64`, with `end` far enough from `2^64`: `Start`
emits, in order, its blocks within `[begin, end]` whose bit is set. -/
theorem emitSection_eq (m : Matcher) (begin end_ : UInt64) {pm : partialMatches}
    {w : List UInt8} (hw : pm.bitset = some w) (hlen : 8 * w.length = m.sectionSize.toNat)
    (hpos : 0 < m.sectionSize.toNat) (h8 : m.sectionSize.toNat % 8 = 0)
    (hsec : pm.sectionIdx.toNat * m.sectionSize.toNat ≤ end_.toNat)
    (hlast : pm.sectionIdx.toNat * m.sectionSize.toNat + m.sectionSize.toNat ≤ 2 ^ 64)
    (hend : end_.toNat + 8 < 2 ^ 64) :
    m.emitSection begin end_ pm =
      some (((sectionBlocks m.sectionSize.toNat begin.toNat end_.toNat pm.sectionIdx.toNat).filter
        fun k => bitAt w (k - pm.sectionIdx.toNat * m.sectionSize.toNat)).map Nat.toUInt64) := by
  -- the section's bounds, computed in `uint64` without wrapping
  have hss : (pm.sectionIdx * m.sectionSize).toNat = pm.sectionIdx.toNat * m.sectionSize.toNat := by
    rw [UInt64.toNat_mul]
    exact Nat.mod_eq_of_lt (by omega)
  have hend1 : (pm.sectionIdx * m.sectionSize + m.sectionSize - 1).toNat =
      pm.sectionIdx.toNat * m.sectionSize.toNat + m.sectionSize.toNat - 1 := by
    -- the sum may reach `2^64` and wrap; its predecessor does not
    have hpred : (m.sectionSize - 1).toNat = m.sectionSize.toNat - 1 :=
      UInt64.toNat_sub_of_le _ _ (UInt64.le_iff_toNat_le.2 (by simp; omega))
    rw [add_sub_assoc, UInt64.toNat_add, hss, hpred, Nat.mod_eq_of_lt (by omega)]
    omega
  have hfirst : (if begin > pm.sectionIdx * m.sectionSize then begin
      else pm.sectionIdx * m.sectionSize).toNat =
        max begin.toNat (pm.sectionIdx.toNat * m.sectionSize.toNat) := by
    split <;> rename_i h <;> rw [gt_iff_lt, UInt64.lt_iff_toNat_lt, hss] at h
    · omega
    · rw [hss]; omega
  have hlast : (if end_ < pm.sectionIdx * m.sectionSize + m.sectionSize - 1 then end_
      else pm.sectionIdx * m.sectionSize + m.sectionSize - 1).toNat =
        min end_.toNat (pm.sectionIdx.toNat * m.sectionSize.toNat + m.sectionSize.toNat - 1) := by
    split <;> rename_i h <;> rw [UInt64.lt_iff_toNat_lt, hend1] at h
    · omega
    · rw [hend1]; omega
  have hss8 : (pm.sectionIdx * m.sectionSize).toNat % 8 = 0 := by
    rw [hss, Nat.mul_mod, h8, Nat.mul_zero, Nat.zero_mod]
  unfold Matcher.emitSection
  simp only [hw, Option.getD_some]
  rw [emitBlocks_eq hss8 (by rw [hlast, hss]; omega) (by rw [hlast]; omega) _ _
      (by rw [hfirst, hss]; omega) (by rw [hlast, hfirst]; omega),
    hfirst, hlast, hss, sectionBlocks]
  congr 4
  omega

/-! ## The sections together -/

/-- The sections `begin / size ..= end / size` cut `[begin, end]` into
consecutive pieces. -/
theorem flatMap_sectionBlocks {size : Nat} (hpos : 0 < size) (begin end_ : Nat) :
    (List.range' (begin / size) (end_ / size + 1 - begin / size)).flatMap
        (sectionBlocks size begin end_) =
      List.range' begin (end_ + 1 - begin) := by
  have hlo : begin / size * size ≤ begin := Nat.div_mul_le_self begin size
  have hlo' : begin < begin / size * size + size := Nat.lt_div_mul_add hpos
  have hhi : end_ < end_ / size * size + size := Nat.lt_div_mul_add hpos
  -- the first `c` sections hold the blocks of `[begin, end]` below `(lo + c) * size`
  have key : ∀ c, (List.range' (begin / size) c).flatMap (sectionBlocks size begin end_) =
      List.range' begin (min (end_ + 1) ((begin / size + c) * size) - begin) := by
    intro c
    induction c with
    | zero =>
      simp only [List.range'_zero, List.flatMap_nil, Nat.add_zero]
      rw [show min (end_ + 1) (begin / size * size) - begin = 0 by omega, List.range'_zero]
    | succ c ih =>
      rw [List.range'_concat, List.flatMap_append, List.flatMap_singleton, ih, sectionBlocks]
      have hX : (begin / size + (c + 1)) * size = (begin / size + c) * size + size := by ring
      have hX0 : (begin / size + c) * size = begin / size * size + c * size := by ring
      have hc : c = 0 ∨ size ≤ c * size := by
        rcases Nat.eq_zero_or_pos c with h | h
        · exact .inl h
        · exact .inr (Nat.le_mul_of_pos_left size h)
      rw [hX, show begin / size + 1 * c = begin / size + c by ring]
      by_cases hempty : min (end_ + 1) ((begin / size + c) * size + size) -
          max begin ((begin / size + c) * size) = 0
      · rw [hempty, List.range'_zero, List.append_nil]
        congr 1
        omega
      · rw [show max begin ((begin / size + c) * size) =
            begin + (min (end_ + 1) ((begin / size + c) * size) - begin) by omega,
          List.range'_append_1]
        congr 1
        omega
  rw [key]
  congr 1
  have : (begin / size + (end_ / size + 1 - begin / size)) * size ≥ end_ + 1 ∨
      end_ + 1 - begin = 0 := by
    by_cases h : begin / size ≤ end_ / size + 1
    · left
      rw [show begin / size + (end_ / size + 1 - begin / size) = end_ / size + 1 by omega,
        Nat.add_mul, Nat.one_mul]
      omega
    · right
      have : (end_ / size + 2) * size ≤ begin / size * size :=
        Nat.mul_le_mul_right size (by omega)
      rw [Nat.add_mul] at this
      omega
  omega

/-- Collecting the blocks of the forwarded sections: when a dropped section
has no block to emit and a forwarded one emits its own, the whole output is
every section's blocks in order. -/
theorem mapM_filterMap_flatten {α β γ : Type} (f : α → Option β) (g : β → Option (List γ))
    (h : α → List γ) :
    ∀ l : List α, (∀ a ∈ l, (f a).elim (h a = []) fun b => g b = some (h a)) →
      ((l.filterMap f).mapM g).map List.flatten = some (l.flatMap h)
  | [], _ => rfl
  | a :: l, hl => by
    have ih := mapM_filterMap_flatten f g h l fun x hx => hl x (by simp [hx])
    have ha := hl a (by simp)
    cases hf : f a with
    | none =>
      simp only [hf, Option.elim] at ha
      simp [hf, ih, ha]
    | some b =>
      simp only [hf, Option.elim] at ha
      obtain ⟨xs, hxs, hflat⟩ := Option.map_eq_some_iff.1 ih
      simp [hf, List.mapM_cons, ha, hxs, ← hflat]

/-! ## The matcher emits exactly the blocks whose blooms match -/

/-- For a section size that is a positive multiple of 8 and a range whose
last section ends by `2^64`, with the rows of every section up to the last
served as the bloom indexer committed them, `Start` emits, in increasing
order, exactly the blocks of `[begin, end]` whose bloom passes every filter
group. -/
theorem Start_eq_matching (Keccak256 : List UInt8 → Vector UInt8 32) (blooms : Nat → Bloom)
    (sectionSize begin end_ : UInt64) (filters : List (List (Option (List UInt8))))
    (fetch : Nat → UInt64 → List UInt8)
    (hpos : 0 < sectionSize.toNat) (h8 : sectionSize.toNat % 8 = 0)
    (hend : end_.toNat + 8 < 2 ^ 64)
    (hlast : (end_.toNat / sectionSize.toNat + 1) * sectionSize.toNat ≤ 2 ^ 64)
    (hfetch : ∀ s : UInt64, s.toNat ≤ end_.toNat / sectionSize.toNat →
      indexSection blooms sectionSize.toNat s.toNat =
        .ok ((List.range BloomBitLength).map fun bit => fetch bit s)) :
    (NewMatcher Keccak256 sectionSize filters).Start fetch begin end_ =
      some (((List.range' begin.toNat (end_.toNat + 1 - begin.toNat)).filter
        fun i => bloomMatches Keccak256 (blooms i) filters).map Nat.toUInt64) := by
  set m := NewMatcher Keccak256 sectionSize filters with hm
  set size := sectionSize.toNat with hsize
  have hmsize : m.sectionSize = sectionSize := rfl
  have hn : 8 * (m.sectionSize / 8).toNat = size := by
    rw [hmsize, UInt64.toNat_div]
    simp only [UInt64.reduceToNat]
    omega
  -- the rows a stage reads for section `s` hold the blooms of its blocks
  have hdata : ∀ s : UInt64, s.toNat ≤ end_.toNat / size → ∀ bit < BloomBitLength,
      Encodes (fetch bit s) (8 * (m.sectionSize / 8).toNat)
        fun j => (blooms (s.toNat * size + j)).Big.testBit bit := by
    intro s hs bit hbit
    obtain ⟨rows, hrows, -, henc⟩ := indexSection_rows blooms h8 s.toNat
    rw [hfetch s hs, Except.ok.injEq] at hrows
    subst hrows
    have hrow := henc bit (by rw [List.length_map, List.length_range]; exact hbit)
    rw [List.getElem_map, List.getElem_range] at hrow
    rw [hn]
    exact hrow
  -- every section through the stages
  let pipeline (k : Nat) : Option partialMatches :=
    m.filters.foldl (fun o group => o.bind (m.subMatch fetch group))
      (some ⟨k.toUInt64, some (List.replicate (m.sectionSize / 8).toNat 0xff)⟩)
  have hendlt : end_.toNat / size < 2 ^ 64 - 1 := by
    have := Nat.div_le_self end_.toNat size
    omega
  have hsection : ∀ k ≤ end_.toNat / size, Forwarded size k.toUInt64
      (fun j => bloomMatches Keccak256 (blooms (k * size + j)) filters) (pipeline k) := by
    intro k hk
    have hk' : k.toUInt64.toNat = k := by
      simp only [Nat.toUInt64, UInt64.toNat_ofNat']
      exact Nat.mod_eq_of_lt (by omega)
    have h0 : Forwarded (8 * (m.sectionSize / 8).toNat) k.toUInt64 (fun _ => true)
        (some ⟨k.toUInt64, some (List.replicate (m.sectionSize / 8).toNat 0xff)⟩) :=
      ⟨rfl, _, rfl, encodes_replicate_ff _⟩
    have hrun := foldl_subMatch_forwarded m fetch (hdata k.toUInt64 (by rw [hk']; exact hk))
      m.filters (NewMatcher_filters_lt Keccak256 sectionSize filters) h0
    rw [hn, hk'] at hrun
    simpa only [Bool.true_and, hm, NewMatcher_filters_all] using hrun
  -- `run` feeds the sections `lo ..= hi` through the stages, one at a time
  have hrun : m.run fetch begin end_ = some ((List.range' (begin.toNat / size)
      (end_.toNat / size + 1 - begin.toNat / size)).filterMap pipeline) := by
    have hne : m.sectionSize ≠ 0 := by
      intro h
      rw [hmsize] at h
      rw [hsize, h] at hpos
      exact absurd hpos (by decide)
    have hlo : (begin / m.sectionSize).toNat = begin.toNat / size := by
      rw [UInt64.toNat_div, hmsize]
    have hhi : (end_ / m.sectionSize).toNat = end_.toNat / size := by
      rw [UInt64.toNat_div, hmsize]
    have hmax : end_ / m.sectionSize ≠ 0xFFFFFFFFFFFFFFFF := by
      intro h
      have := congrArg UInt64.toNat h
      rw [hhi] at this
      simp only [UInt64.reduceToNat] at this
      omega
    unfold Matcher.run
    rw [if_neg hne, if_neg hmax]
    dsimp only
    rw [hlo, hhi, foldl_filterMap_eq, List.filterMap_map]
    rfl
  -- what each section contributes: the blocks of it that match
  let spec (i : Nat) : Bool := bloomMatches Keccak256 (blooms i) filters
  let emitted (k : Nat) : List UInt64 :=
    ((sectionBlocks size begin.toNat end_.toNat k).filter spec).map Nat.toUInt64
  have hsec : ∀ k ∈ List.range' (begin.toNat / size) (end_.toNat / size + 1 - begin.toNat / size),
      (pipeline k).elim (emitted k = []) fun pm => m.emitSection begin end_ pm = some (emitted k) := by
    intro k hk
    rw [List.mem_range'_1] at hk
    have hkend : k * size ≤ end_.toNat :=
      calc k * size ≤ end_.toNat / size * size := Nat.mul_le_mul_right size (by omega)
        _ ≤ end_.toNat := Nat.div_mul_le_self _ _
    have hk64 : k < 2 ^ 64 := by omega
    have hklast : k * size + size ≤ 2 ^ 64 :=
      calc k * size + size = (k + 1) * size := by ring
        _ ≤ (end_.toNat / size + 1) * size := Nat.mul_le_mul_right size (by omega)
        _ ≤ 2 ^ 64 := hlast
    have hblock : ∀ i ∈ sectionBlocks size begin.toNat end_.toNat k,
        k * size ≤ i ∧ i < k * size + size := by
      intro i hi
      rw [sectionBlocks, List.mem_range'_1] at hi
      omega
    have hfw := hsection k (by omega)
    cases hp : pipeline k with
    | none =>
      -- a dropped section: none of its blocks matches
      rw [hp] at hfw
      show emitted k = []
      simp only [emitted, List.map_eq_nil_iff, List.filter_eq_nil_iff]
      intro i hi
      obtain ⟨h1, h2⟩ := hblock i hi
      have hmiss : bloomMatches Keccak256 (blooms (k * size + (i - k * size))) filters = false :=
        hfw (i - k * size) (by omega)
      rw [show k * size + (i - k * size) = i by omega] at hmiss
      simp [spec, hmiss]
    | some pm =>
      -- a forwarded section: the bit of each of its blocks is whether it matches
      rw [hp] at hfw
      obtain ⟨hs, w, hw, hwenc⟩ := hfw
      show m.emitSection begin end_ pm = some (emitted k)
      have hsk : pm.sectionIdx.toNat = k := by
        rw [hs]
        simp only [Nat.toUInt64, UInt64.toNat_ofNat']
        exact Nat.mod_eq_of_lt hk64
      rw [emitSection_eq m begin end_ hw (by rw [hwenc.length]; rfl) hpos h8
        (by rw [hsk]; exact hkend) (by rw [hsk]; exact hklast) hend, hsk]
      refine congrArg (fun l => some (List.map Nat.toUInt64 l)) (List.filter_congr fun i hi => ?_)
      obtain ⟨h1, h2⟩ := hblock i hi
      rw [hwenc.bitAt_eq]
      show (decide (i - k * size < size) &&
        bloomMatches Keccak256 (blooms (k * size + (i - k * size))) filters) = spec i
      rw [show k * size + (i - k * size) = i by omega]
      simp [show i - k * size < size by omega, spec]
  obtain ⟨results, hres, hflat⟩ := Option.map_eq_some_iff.1
    (mapM_filterMap_flatten pipeline (m.emitSection begin end_) emitted _ hsec)
  have hall : (List.range' (begin.toNat / size)
      (end_.toNat / size + 1 - begin.toNat / size)).flatMap emitted =
      ((List.range' begin.toNat (end_.toNat + 1 - begin.toNat)).filter spec).map Nat.toUInt64 := by
    simp only [emitted]
    rw [← List.map_flatMap, ← List.filter_flatMap, flatMap_sectionBlocks hpos]
  rw [Matcher.Start, hrun]
  show (List.mapM (m.emitSection begin end_) _ >>= fun results => some results.flatten) = _
  rw [hres, ← hall, ← hflat]
  rfl

/-- A bloom made by `CreateBloom` from receipts that hold a key of every group
that is not a wildcard passes the filters. -/
theorem bloomMatches_of_keys (Keccak256 : List UInt8 → Vector UInt8 32)
    {receipts : List Receipt} {bloom : Bloom}
    (hbloom : CreateBloom Keccak256 receipts = some bloom)
    {filters : List (List (Option (List UInt8)))}
    (hkeys : ∀ group ∈ filters, wildcard group = false →
      ∃ key ∈ logKeys receipts, some key ∈ group) :
    bloomMatches Keccak256 bloom filters = true := by
  simp only [bloomMatches, List.all_eq_true]
  intro group hgroup
  cases hw : wildcard group with
  | true => rfl
  | false =>
    obtain ⟨key, hkey, hmem⟩ := hkeys group hgroup hw
    simp only [Bool.false_or, List.any_eq_true]
    exact ⟨some key, hmem, by simpa using BloomLookup_of_mem_logKeys Keccak256 hbloom hkey⟩

/-- The matcher emits exactly the blocks whose blooms match; in particular it
misses no block whose receipts hold, for every group that is not a
wildcard, a key of that group. -/
theorem Start_emits_exactly_bloom_matches (Keccak256 : List UInt8 → Vector UInt8 32)
    (blooms : Nat → Bloom) (sectionSize begin end_ : UInt64)
    (filters : List (List (Option (List UInt8)))) (fetch : Nat → UInt64 → List UInt8)
    (hpos : 0 < sectionSize.toNat) (h8 : sectionSize.toNat % 8 = 0)
    (hend : end_.toNat + sectionSize.toNat < 2 ^ 64)
    (hfetch : ∀ s : UInt64, indexSection blooms sectionSize.toNat s.toNat =
      .ok ((List.range BloomBitLength).map fun bit => fetch bit s)) :
    (NewMatcher Keccak256 sectionSize filters).Start fetch begin end_ =
        some (((List.range' begin.toNat (end_.toNat + 1 - begin.toNat)).filter
          fun i => bloomMatches Keccak256 (blooms i) filters).map Nat.toUInt64) ∧
      ∀ receipts : Nat → List Receipt,
        (∀ i, CreateBloom Keccak256 (receipts i) = some (blooms i)) →
        ∀ i, begin.toNat ≤ i → i ≤ end_.toNat →
          (∀ group ∈ filters, wildcard group = false →
            ∃ key ∈ logKeys (receipts i), some key ∈ group) →
          ∃ out, (NewMatcher Keccak256 sectionSize filters).Start fetch begin end_ = some out ∧
            i.toUInt64 ∈ out := by
  have hlast : (end_.toNat / sectionSize.toNat + 1) * sectionSize.toNat ≤ 2 ^ 64 :=
    calc (end_.toNat / sectionSize.toNat + 1) * sectionSize.toNat
        = end_.toNat / sectionSize.toNat * sectionSize.toNat + sectionSize.toNat := by ring
      _ ≤ end_.toNat + sectionSize.toNat := by
        have := Nat.div_mul_le_self end_.toNat sectionSize.toNat
        omega
      _ ≤ 2 ^ 64 := hend.le
  have hstart := Start_eq_matching Keccak256 blooms sectionSize begin end_ filters fetch hpos h8
    (by omega) hlast fun s _ => hfetch s
  refine ⟨hstart, fun receipts hbloom i hbegin hi hkeys => ⟨_, hstart, ?_⟩⟩
  -- the block's bloom holds a key of every group that is not a wildcard
  have hmatch : bloomMatches Keccak256 (blooms i) filters = true :=
    bloomMatches_of_keys Keccak256 (hbloom i) hkeys
  rw [List.mem_map]
  exact ⟨i, List.mem_filter.2 ⟨List.mem_range'_1.2 ⟨hbegin, by omega⟩, hmatch⟩, rfl⟩

/-- A hash whose 32 bytes all repeat the first byte of the data: the key `[1]`
sets bloom bit `257` three times. -/
def firstByteHash (b : List UInt8) : Vector UInt8 32 := Vector.replicate 32 (b.headD 0)

/-- The bloom holding bit `257` alone: byte `223` is `2`. -/
def keyOneBloom : Bloom := (Vector.replicate 256 0).set 223 2

/-- Blocks `0, 2, 4, 6` carry the key `[1]`, the others nothing. -/
def evenKeyBlooms (i : Nat) : Bloom := if i % 2 = 0 then keyOneBloom else Vector.replicate 256 0

/-- One section of eight blocks, queried for the key `[1]`: `Start` emits the
blocks that carry it. -/
theorem Start_emits_exactly_bloom_matches_of_even_blocks :
    (NewMatcher firstByteHash 8 [[some [1]]]).Start
        (fun bit s => committedRow evenKeyBlooms 8 s.toNat bit) 0 7 = some [0, 2, 4, 6] := by
  have h := (Start_emits_exactly_bloom_matches firstByteHash evenKeyBlooms 8 0 7 [[some [1]]] _
    (by decide) (by decide) (by decide) fun s => indexSection_eq_committedRow _ (by decide) s.toNat).1
  refine h.trans ?_
  decide +kernel

end Btp.Bloombits
