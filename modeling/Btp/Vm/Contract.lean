import Mathlib
import Btp.Common.Types
import Btp.Vm.Analysis

/-!
# Contracts and the jump-destination check

`core/vm/contract.go`. A contract keeps the result of the analysis of its
code either in `jumpdests`, a map shared with its callers and keyed by code
hash, or, for code without a hash (init code), in its own `analysis` field.
`validJumpdest` fills whichever cache applies.

The caches are only right if every bitmap stored under a hash is the bitmap
of the code with that hash; `CacheSound` states this for an assignment
`codeOf` of code to hashes, and `validJumpdest` keeps it.
-/

namespace Btp.Vm

/-- The fields of `Contract` that `validJumpdest` reads and writes. -/
structure Contract where
  /-- Aggregated result of JUMPDEST analysis, keyed by code hash. -/
  jumpdests : GoMap Hash Bitvec
  /-- Locally cached result of JUMPDEST analysis. -/
  analysis : Option Bitvec
  Code : List UInt8
  CodeHash : Hash

/-- `big.Int.BitLen` of a non-negative integer: the length of its binary
representation, 0 for 0. -/
def bitLen (n : Nat) : Nat := if n = 0 then 0 else n.log2 + 1

/-- `Contract.validJumpdest`: `dest` is a big integer from the stack and
`udest = dest.Uint64()` its low 64 bits. -/
def Contract.validJumpdest (c : Contract) (dest : Nat) : Option (Bool × Contract) :=
  let udest := dest % 2 ^ 64
  if h : 63 ≤ bitLen dest ∨ c.Code.length ≤ udest then some (false, c)
  else if c.Code[udest] ≠ JUMPDEST then some (false, c)
  else if c.CodeHash ≠ 0 then
    match c.jumpdests.lookup c.CodeHash with
    | some analysis => (analysis.codeSegment udest).map fun r => (r, c)
    | none => do
      let analysis ← codeBitmap c.Code
      let r ← analysis.codeSegment udest
      pure (r, { c with jumpdests := c.jumpdests.insert c.CodeHash analysis })
  else do
    let analysis ← match c.analysis with
      | some analysis => some analysis
      | none => codeBitmap c.Code
    let r ← analysis.codeSegment udest
    pure (r, { c with analysis := some analysis })

/-- The caches hold true analyses: a bitmap stored under hash `h` is the
bitmap of `codeOf h`, the contract's own code is `codeOf` of its hash when
it has one, and a local analysis is the bitmap of the contract's code. -/
structure Contract.CacheSound (codeOf : Hash → List UInt8) (c : Contract) : Prop where
  cached : ∀ h a, c.jumpdests.lookup h = some a → codeBitmap (codeOf h) = some a
  codeHash : c.CodeHash ≠ 0 → codeOf c.CodeHash = c.Code
  analysed : ∀ a, c.analysis = some a → codeBitmap c.Code = some a

theorem bitLen_lt_iff (n : Nat) : bitLen n < 63 ↔ n < 2 ^ 62 := by
  unfold bitLen
  split
  · simp_all
  · rename_i hn
    have := @Nat.le_log2 _ 62 hn
    omega

/-- A bitmap of `code`, read at a position of the code, says whether the
scan reaches it. -/
theorem segment_of_bitmap {code : List UInt8} {a : Bitvec}
    (h : codeBitmap code = some a) {p : Nat} (hp : p < code.length) :
    ∃ r, a.codeSegment p = some r ∧ (r = true ↔ Reached code p) := by
  obtain ⟨bits, hb, -, hseg⟩ := codeBitmap_eq code
  rw [hb] at h
  cases h
  obtain ⟨hs, hr⟩ := hseg p hp
  exact ⟨_, hs, by rw [← hr]; simp⟩

/-- The check on a hashed contract, with the analysis found in or added to
the shared map. -/
theorem validJumpdest_hashed {codeOf : Hash → List UInt8} {c : Contract}
    (hc : c.CacheSound codeOf) (hh : c.CodeHash ≠ 0) {p : Nat} (hp : p < c.Code.length) :
    ∃ r c', (match c.jumpdests.lookup c.CodeHash with
      | some analysis => (analysis.codeSegment p).map fun r => (r, c)
      | none => do
        let analysis ← codeBitmap c.Code
        let r ← analysis.codeSegment p
        pure (r, { c with jumpdests := c.jumpdests.insert c.CodeHash analysis })) =
        some (r, c') ∧ c'.CacheSound codeOf ∧ c'.Code = c.Code ∧ c'.CodeHash = c.CodeHash ∧
        (r = true ↔ Reached c.Code p) := by
  cases hl : c.jumpdests.lookup c.CodeHash with
  | some a =>
      have ha : codeBitmap c.Code = some a := by
        rw [← hc.codeHash hh]
        exact hc.cached _ _ hl
      obtain ⟨r, hs, hr⟩ := segment_of_bitmap ha hp
      exact ⟨r, c, by simp [hs], hc, rfl, rfl, hr⟩
  | none =>
      obtain ⟨bits, hb, -, -⟩ := codeBitmap_eq c.Code
      obtain ⟨r, hs, hr⟩ := segment_of_bitmap hb hp
      refine ⟨r, { c with jumpdests := c.jumpdests.insert c.CodeHash bits }, by simp [hb, hs],
        ⟨?_, fun _ => hc.codeHash hh, hc.analysed⟩, rfl, rfl, hr⟩
      -- the new entry is the bitmap of the code its key hashes
      intro h a ha
      by_cases e : h = c.CodeHash
      · subst e
        rw [AList.lookup_insert] at ha
        cases ha
        rw [hc.codeHash hh]
        exact hb
      · rw [AList.lookup_insert_ne e] at ha
        exact hc.cached _ _ ha

/-- The check on a contract without a code hash, with the analysis found in
or added to the contract itself. -/
theorem validJumpdest_local {codeOf : Hash → List UInt8} {c : Contract}
    (hc : c.CacheSound codeOf) {p : Nat} (hp : p < c.Code.length) :
    ∃ r c', (do
      let analysis ← match c.analysis with
        | some analysis => some analysis
        | none => codeBitmap c.Code
      let r ← analysis.codeSegment p
      pure (r, { c with analysis := some analysis })) = some (r, c') ∧
        c'.CacheSound codeOf ∧ c'.Code = c.Code ∧ c'.CodeHash = c.CodeHash ∧
        (r = true ↔ Reached c.Code p) := by
  -- either way the analysis used is the bitmap of the contract's code
  have sound : ∀ a, codeBitmap c.Code = some a →
      ({ c with analysis := some a } : Contract).CacheSound codeOf := fun a ha =>
    ⟨hc.cached, hc.codeHash, fun a' ha' => by cases ha'; exact ha⟩
  cases hl : c.analysis with
  | some a =>
      have ha := hc.analysed a hl
      obtain ⟨r, hs, hr⟩ := segment_of_bitmap ha hp
      exact ⟨r, { c with analysis := some a }, by simp [hs], sound a ha, rfl, rfl, hr⟩
  | none =>
      obtain ⟨bits, hb, -, -⟩ := codeBitmap_eq c.Code
      obtain ⟨r, hs, hr⟩ := segment_of_bitmap hb hp
      exact ⟨r, { c with analysis := some bits }, by simp [hb, hs], sound bits hb, rfl, rfl, hr⟩

/-- `validJumpdest` on a contract with sound caches: it never fails, keeps
the caches sound, and accepts `dest` exactly when the `BitLen` guard lets it
through (`dest < 2^62`), it lies in the code, holds a JUMPDEST and is an
instruction start. -/
theorem validJumpdest_eq {codeOf : Hash → List UInt8} {c : Contract}
    (hc : c.CacheSound codeOf) (dest : Nat) :
    ∃ r c', c.validJumpdest dest = some (r, c') ∧ c'.CacheSound codeOf ∧
      c'.Code = c.Code ∧ c'.CodeHash = c.CodeHash ∧
      (r = true ↔ dest < 2 ^ 62 ∧
        ∃ h : dest < c.Code.length, c.Code[dest] = JUMPDEST ∧ Reached c.Code dest) := by
  unfold Contract.validJumpdest
  simp only
  split
  · -- rejected by the guard: past `2^62`, or past the code
    rename_i hg
    refine ⟨false, c, rfl, hc, rfl, rfl, ?_⟩
    simp only [Bool.false_eq_true, false_iff, not_and, not_exists]
    intro hlt hlen
    rw [← bitLen_lt_iff] at hlt
    have : dest % 2 ^ 64 = dest := Nat.mod_eq_of_lt (by omega)
    omega
  · rename_i hg
    have hlt : dest < 2 ^ 62 := (bitLen_lt_iff dest).mp (by omega)
    have hud : dest % 2 ^ 64 = dest := Nat.mod_eq_of_lt (by omega)
    have hlen : dest < c.Code.length := by omega
    simp only [hud]
    split
    · rename_i hop
      refine ⟨false, c, rfl, hc, rfl, rfl, ?_⟩
      simp only [Bool.false_eq_true, false_iff, not_and, not_exists]
      exact fun _ _ h _ => hop h
    · rename_i hop
      have hj : c.Code[dest] = JUMPDEST := not_not.mp hop
      split
      · rename_i hh
        obtain ⟨r, c', he, hs, hcode, hhash, hr⟩ := validJumpdest_hashed hc hh hlen
        exact ⟨r, c', he, hs, hcode, hhash, by rw [hr]; exact ⟨fun h => ⟨hlt, hlen, hj, h⟩, fun h => h.2.2.2⟩⟩
      · obtain ⟨r, c', he, hs, hcode, hhash, hr⟩ := validJumpdest_local hc hlen
        exact ⟨r, c', he, hs, hcode, hhash, by rw [hr]; exact ⟨fun h => ⟨hlt, hlen, hj, h⟩, fun h => h.2.2.2⟩⟩

/-! ## Jump destinations are instruction starts -/

/-- **Jump destinations are instruction starts.** For every code the
analysis stays inside its vector and marks exactly the positions the scan
skips; on a contract whose caches are sound and whose code has at most `2^62`
bytes (more than any Go byte slice holds, so the `BitLen` guard never rejects
a position in the code), `validJumpdest` accepts `dest` iff `dest` lies in the
code, holds a JUMPDEST and is an instruction start, with the analysis from the
shared map or computed locally, and the caches stay sound. -/
theorem validJumpdest_iff_instruction_start (codeOf : Hash → List UInt8) (c : Contract)
    (hc : c.CacheSound codeOf) (hlen : c.Code.length ≤ 2 ^ 62) (dest : Nat) :
    (∀ code : List UInt8, ∃ bits, codeBitmap code = some bits ∧
      ∀ p < code.length, ∃ r, bits.codeSegment p = some r ∧ (r = true ↔ Reached code p)) ∧
    ∃ r c', c.validJumpdest dest = some (r, c') ∧ c'.CacheSound codeOf ∧
      (r = true ↔ ∃ h : dest < c.Code.length, c.Code[dest] = JUMPDEST ∧ Reached c.Code dest) := by
  refine ⟨fun code => ?_, ?_⟩
  · obtain ⟨bits, hb, -, -⟩ := codeBitmap_eq code
    exact ⟨bits, hb, fun p hp => segment_of_bitmap hb hp⟩
  · obtain ⟨r, c', h, hs, -, -, hr⟩ := validJumpdest_eq hc dest
    -- a position in the code is below `2^62`, so the guard is no condition
    refine ⟨r, c', h, hs, hr.trans ⟨fun h => h.2, fun hin => ⟨?_, hin⟩⟩⟩
    obtain ⟨hd, -⟩ := hin
    omega

/-- A contract with nothing cached, running `PUSH1 0x5b JUMPDEST`: the byte
after the `PUSH1` is a JUMPDEST inside push data, the third an instruction. -/
def pushContract : Contract := ⟨∅, none, [PUSH1, JUMPDEST, JUMPDEST], 0⟩

theorem pushContract_accepts_two :
    pushContract.CacheSound (fun _ => [PUSH1, JUMPDEST, JUMPDEST]) ∧
      ∃ c', pushContract.validJumpdest 2 = some (true, c') := by
  have hc : pushContract.CacheSound (fun _ => [PUSH1, JUMPDEST, JUMPDEST]) :=
    ⟨by simp [pushContract], by simp [pushContract], by simp [pushContract]⟩
  obtain ⟨-, r, c', h, -, hr⟩ :=
    validJumpdest_iff_instruction_start _ _ hc (by simp [pushContract]) 2
  -- the scan steps from the `PUSH1` at 0 over its one byte of data to 2
  have hreach : Reached pushContract.Code 2 := by
    have := (Reached.start : Reached pushContract.Code 0).step (by simp [pushContract])
    simpa [pushContract, immediates, PUSH1, PUSH32] using this
  have hr' : r = true := hr.mpr ⟨by simp [pushContract], by simp [pushContract], hreach⟩
  exact ⟨hc, c', hr' ▸ h⟩

end Btp.Vm
