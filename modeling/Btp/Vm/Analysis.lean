import Mathlib
import Btp.Lib.ByteBits
import Btp.Vm.OpCodes

/-!
# Jump-destination analysis

`core/vm/analysis.go`. `codeBitmap` marks every byte of PUSH data in a
bit vector with one bit per code byte; a position whose bit is unset is
an instruction start. Every index the Go code makes into the vector is
checked here, and a write past its end is `none`, where Go panics.

The reference the bitmap is compared with is `Reached`: the positions the
linear scan visits, starting at 0 and stepping over each PUSHn's `n`
immediate bytes.
-/

namespace Btp.Vm

open ByteBits

/-- `type bitvec []byte`: a set bit marks a byte of PUSH data. -/
abbrev Bitvec := List UInt8

/-- `bitvec.set`: mark position `pos` as data. -/
def Bitvec.set (bits : Bitvec) (pos : Nat) : Option Bitvec :=
  if pos / 8 < bits.length then
    some (bits.modify (pos / 8) (· ||| (0x80 >>> (pos % 8).toUInt8)))
  else none

/-- `bitvec.set8`: mark the eight positions from `pos` on, which straddle
bytes `pos / 8` and `pos / 8 + 1`. -/
def Bitvec.set8 (bits : Bitvec) (pos : Nat) : Option Bitvec :=
  if pos / 8 < bits.length then
    let bits := bits.modify (pos / 8) (· ||| (0xFF >>> (pos % 8).toUInt8))
    if pos / 8 + 1 < bits.length then
      some (bits.modify (pos / 8 + 1) (· ||| ~~~(0xFF >>> (pos % 8).toUInt8)))
    else none
  else none

/-- `bitvec.codeSegment`: whether `pos` is an instruction start. -/
def Bitvec.codeSegment (bits : Bitvec) (pos : Nat) : Option Bool :=
  if h : pos / 8 < bits.length then
    some ((bits[pos / 8] &&& (0x80 >>> (pos % 8).toUInt8)) == 0)
  else none

/-- The loop `for ; numbits >= 8; numbits -= 8 { bits.set8(pc); pc += 8 }`,
returning the vector, `pc` and `numbits` it leaves. -/
def set8Loop (bits : Bitvec) (pc numbits : Nat) : Option (Bitvec × Nat × Nat) :=
  if h : 8 ≤ numbits then do
    let bits ← bits.set8 pc
    set8Loop bits (pc + 8) (numbits - 8)
  else some (bits, pc, numbits)
termination_by numbits
decreasing_by omega

/-- The loop `for ; numbits > 0; numbits-- { bits.set(pc); pc++ }`. -/
def setLoop (bits : Bitvec) (pc : Nat) : Nat → Option (Bitvec × Nat)
  | 0 => some (bits, pc)
  | numbits + 1 => do
    let bits ← bits.set pc
    setLoop bits (pc + 1) numbits

theorem set8Loop_pc {bits bits' : Bitvec} {pc pc' n n' : Nat}
    (h : set8Loop bits pc n = some (bits', pc', n')) : pc' + n' = pc + n := by
  induction bits, pc, n using set8Loop.induct generalizing bits' pc' n' with
  | case1 bits pc n hn ih =>
      rw [set8Loop, dif_pos hn] at h
      cases hs : bits.set8 pc with
      | none => simp [hs] at h
      | some b =>
          simp only [hs, Option.bind_eq_bind, Option.bind_some] at h
          have := ih b h
          omega
  | case2 bits pc n hn =>
      rw [set8Loop, dif_neg hn] at h
      cases h
      rfl

theorem setLoop_pc {bits bits' : Bitvec} {pc pc' n : Nat}
    (h : setLoop bits pc n = some (bits', pc')) : pc' = pc + n := by
  induction n generalizing bits pc with
  | zero => cases h; rfl
  | succ n ih =>
      cases hs : bits.set pc with
      | none => simp [setLoop, hs] at h
      | some b =>
          simp only [setLoop, hs, Option.bind_eq_bind, Option.bind_some] at h
          have := ih h
          omega

/-- The main loop of `codeBitmap`, from program counter `pc` on. -/
def codeBitmapLoop (code : List UInt8) (bits : Bitvec) (pc : Nat) : Option Bitvec :=
  if h : pc < code.length then
    let op := code[pc]
    if PUSH1 ≤ op ∧ op ≤ PUSH32 then
      let numbits := (op - PUSH1 + 1).toNat
      match h₁ : set8Loop bits (pc + 1) numbits with
      | none => none
      | some (bits, pc₁, numbits₁) =>
        match h₂ : setLoop bits pc₁ numbits₁ with
        | none => none
        | some (bits, pc₂) => codeBitmapLoop code bits pc₂
    else codeBitmapLoop code bits (pc + 1)
  else some bits
termination_by code.length - pc
decreasing_by
  · have := set8Loop_pc h₁
    have := setLoop_pc h₂
    omega
  · omega

/-- `codeBitmap`: the bitmap is 4 bytes longer than the code needs, for the
data of a PUSH32 at the end of the code. -/
def codeBitmap (code : List UInt8) : Option Bitvec :=
  codeBitmapLoop code (List.replicate (code.length / 8 + 1 + 4) 0) 0

/-! ## What one write does to the bit array -/

theorem bitAt_set {bits : Bitvec} {pos : Nat} (h : pos / 8 < bits.length) (p : Nat) :
    bitAt (bits.modify (pos / 8) (· ||| (0x80 >>> (pos % 8).toUInt8))) p =
      (bitAt bits p || p == pos) := by
  rw [bitAt_modify_or h, testMsb_bit (Nat.mod_lt _ (by omega)) (Nat.mod_lt _ (by omega))]
  -- a position is `pos` exactly when its byte and its bit in the byte agree
  have : (p / 8 == pos / 8 && p % 8 == pos % 8) = (p == pos) := by
    rw [Bool.eq_iff_iff]
    simp only [Bool.and_eq_true, beq_iff_eq]
    omega
  rw [this]

theorem set_eq {bits : Bitvec} {pos : Nat} (h : pos / 8 < bits.length) :
    ∃ bits', bits.set pos = some bits' ∧ bits'.length = bits.length ∧
      ∀ p, bitAt bits' p = (bitAt bits p || p == pos) :=
  ⟨_, by simp [Bitvec.set, h], by simp, bitAt_set h⟩

/-- `set8` marks the eight positions `pos, ..., pos + 7`: the tail of byte
`pos / 8` and the head of the byte after it. -/
theorem set8_eq {bits : Bitvec} {pos : Nat} (h : pos / 8 + 1 < bits.length) :
    ∃ bits', bits.set8 pos = some bits' ∧ bits'.length = bits.length ∧
      ∀ p, bitAt bits' p = (bitAt bits p || (decide (pos ≤ p) && decide (p < pos + 8))) := by
  have hk : pos % 8 < 8 := Nat.mod_lt _ (by omega)
  refine ⟨(bits.modify (pos / 8) (· ||| (0xFF >>> (pos % 8).toUInt8))).modify (pos / 8 + 1)
      (· ||| ~~~(0xFF >>> (pos % 8).toUInt8)),
    by simp [Bitvec.set8, h, show pos / 8 < bits.length by omega], by simp, ?_⟩
  intro p
  have hp : p % 8 < 8 := Nat.mod_lt _ (by omega)
  rw [bitAt_modify_or (by simpa using h), bitAt_modify_or (by omega),
    testMsb_head hp hk, testMsb_tail hp hk, Bool.or_assoc]
  congr 1
  rw [Bool.eq_iff_iff]
  simp only [Bool.or_eq_true, Bool.and_eq_true, beq_iff_eq, decide_eq_true_eq]
  omega

/-- The `set8` loop marks the `8 * (numbits / 8)` positions from `pc` on and
leaves `numbits % 8` bits for the single-bit loop. -/
theorem set8Loop_eq (bits : Bitvec) (pc numbits : Nat)
    (h : (pc + numbits) / 8 < bits.length) :
    ∃ bits', set8Loop bits pc numbits = some (bits', pc + 8 * (numbits / 8), numbits % 8) ∧
      bits'.length = bits.length ∧
      ∀ p, bitAt bits' p =
        (bitAt bits p || (decide (pc ≤ p) && decide (p < pc + 8 * (numbits / 8)))) := by
  induction bits, pc, numbits using set8Loop.induct with
  | case1 bits pc n hn ih =>
      obtain ⟨b₁, hs, hlen₁, hbits₁⟩ := @set8_eq bits pc (by omega)
      obtain ⟨b₂, hl, hlen₂, hbits₂⟩ := ih b₁ (by omega)
      refine ⟨b₂, ?_, by omega, ?_⟩
      · rw [set8Loop, dif_pos hn, hs, Option.bind_eq_bind, Option.bind_some, hl]
        congr 3 <;> omega
      · intro p
        rw [hbits₂, hbits₁, Bool.or_assoc]
        congr 1
        rw [Bool.eq_iff_iff]
        simp only [Bool.or_eq_true, Bool.and_eq_true, decide_eq_true_eq]
        omega
  | case2 bits pc n hn =>
      refine ⟨bits, ?_, rfl, ?_⟩
      · rw [set8Loop, dif_neg hn]
        congr 3 <;> omega
      · intro p
        have : n / 8 = 0 := by omega
        simp [this]

/-- The single-bit loop marks the `numbits` positions from `pc` on. -/
theorem setLoop_eq (bits : Bitvec) (pc numbits : Nat)
    (h : (pc + numbits) / 8 < bits.length) :
    ∃ bits', setLoop bits pc numbits = some (bits', pc + numbits) ∧
      bits'.length = bits.length ∧
      ∀ p, bitAt bits' p = (bitAt bits p || (decide (pc ≤ p) && decide (p < pc + numbits))) := by
  induction numbits generalizing bits pc with
  | zero => exact ⟨bits, rfl, rfl, fun p => by simp⟩
  | succ n ih =>
      obtain ⟨b₁, hs, hlen₁, hbits₁⟩ := @set_eq bits pc (by omega)
      obtain ⟨b₂, hl, hlen₂, hbits₂⟩ := ih b₁ (pc + 1) (by omega)
      refine ⟨b₂, ?_, by omega, ?_⟩
      · simp only [setLoop, hs, Option.bind_eq_bind, Option.bind_some, hl]
        congr 2
        omega
      · intro p
        rw [hbits₂, hbits₁, Bool.or_assoc]
        congr 1
        rw [Bool.eq_iff_iff]
        simp only [Bool.or_eq_true, Bool.and_eq_true, beq_iff_eq, decide_eq_true_eq]
        omega

/-! ## The reference: instruction starts of a linear scan -/

/-- How many immediate bytes the opcode `op` carries: `n` for PUSHn. -/
def immediates (op : OpCode) : Nat :=
  if PUSH1 ≤ op ∧ op ≤ PUSH32 then op.toNat - PUSH1.toNat + 1 else 0

/-- The positions the linear scan of `code` visits: it starts at 0 and, from
a position inside the code, steps over the opcode and its immediates. -/
inductive Reached (code : List UInt8) : Nat → Prop
  | start : Reached code 0
  | step {p : Nat} (hp : p < code.length) :
      Reached code p → Reached code (p + 1 + immediates code[p])

/-- No scanned position falls inside the immediates of another: scanned
positions are at least a whole instruction apart. -/
theorem Reached.next_le {code : List UInt8} {q : Nat} (hq : Reached code q)
    (hlen : q < code.length) {p : Nat} (hp : Reached code p) (hlt : q < p) :
    q + 1 + immediates code[q] ≤ p := by
  -- strong induction on `p`, with `q` free: the case `p' < q` uses the
  -- hypothesis at `q` itself
  induction p using Nat.strong_induction_on generalizing q with
  | _ p ih =>
      cases hp with
      | start => omega
      | @step p' hp' hr' =>
          rcases Nat.lt_trichotomy q p' with h | h | h
          · have := ih p' (by omega) hq hlen hr' h
            omega
          · subst h
            exact le_refl _
          · have := ih q (by omega) hr' hp' hq h
            omega

/-- The immediates of a PUSHn, read from the opcode the way `codeBitmap`
computes them. -/
theorem numbits_eq {op : OpCode} (h : PUSH1 ≤ op ∧ op ≤ PUSH32) :
    (op - PUSH1 + 1).toNat = immediates op := by
  have h₁ := UInt8.le_iff_toNat_le.mp h.1
  have h₂ := UInt8.le_iff_toNat_le.mp h.2
  rw [immediates, if_pos h, UInt8.toNat_add, UInt8.toNat_sub_of_le _ _ h.1]
  simp only [PUSH1, PUSH32, UInt8.reduceToNat] at h₁ h₂ ⊢
  omega

theorem immediates_le (op : OpCode) : immediates op ≤ 32 := by
  unfold immediates
  split
  · rename_i h
    have h₁ := UInt8.le_iff_toNat_le.mp h.1
    have h₂ := UInt8.le_iff_toNat_le.mp h.2
    simp only [PUSH1, PUSH32, UInt8.reduceToNat] at h₁ h₂ ⊢
    omega
  · omega

/-! ## The bitmap agrees with the scan -/

/-- The invariant of `codeBitmapLoop` at program counter `pc`: the vector
keeps its size, `pc` is a scanned position, and the set bits are exactly the
positions below `pc` that the scan skips. -/
structure LoopInv (code : List UInt8) (bits : Bitvec) (pc : Nat) : Prop where
  length : bits.length = code.length / 8 + 5
  reached : Reached code pc
  data : ∀ p, bitAt bits p = true ↔ p < pc ∧ ¬ Reached code p

theorem LoopInv.init (code : List UInt8) :
    LoopInv code (List.replicate (code.length / 8 + 1 + 4) 0) 0 :=
  ⟨by simp, .start, fun p => by simp⟩

/-- Over a PUSHn at `pc` the two inner loops mark its `n` immediates, which
the scan skips, and stop at the next scanned position. -/
theorem LoopInv.push {code : List UInt8} {bits : Bitvec} {pc : Nat}
    (hinv : LoopInv code bits pc) (hpc : pc < code.length) :
    ∃ bits₁ bits₂,
      set8Loop bits (pc + 1) (immediates code[pc]) =
        some (bits₁, pc + 1 + 8 * (immediates code[pc] / 8), immediates code[pc] % 8) ∧
      setLoop bits₁ (pc + 1 + 8 * (immediates code[pc] / 8)) (immediates code[pc] % 8) =
        some (bits₂, pc + 1 + immediates code[pc]) ∧
      LoopInv code bits₂ (pc + 1 + immediates code[pc]) := by
  have hn := immediates_le code[pc]
  -- the last immediate is at most 32 bytes past the code, inside the 4 spare bytes
  have hroom : (pc + 1 + immediates code[pc]) / 8 < bits.length := by
    rw [hinv.length]
    omega
  obtain ⟨b₁, h₁, hlen₁, hbits₁⟩ := set8Loop_eq bits (pc + 1) (immediates code[pc]) hroom
  obtain ⟨b₂, h₂, hlen₂, hbits₂⟩ :=
    setLoop_eq b₁ (pc + 1 + 8 * (immediates code[pc] / 8)) (immediates code[pc] % 8)
      (by omega)
  have hlen := hinv.length
  refine ⟨b₁, b₂, h₁, by rw [h₂]; congr 2; omega, ⟨by omega, hinv.reached.step hpc, ?_⟩⟩
  intro p
  rw [hbits₂, hbits₁]
  simp only [Bool.or_eq_true, Bool.and_eq_true, decide_eq_true_eq, hinv.data]
  constructor
  · rintro ((⟨hlt, hnr⟩ | ⟨hlo, hhi⟩) | ⟨hlo, hhi⟩)
    · exact ⟨by omega, hnr⟩
    · refine ⟨by omega, fun hr => ?_⟩
      have := hinv.reached.next_le hpc hr (by omega)
      omega
    · refine ⟨by omega, fun hr => ?_⟩
      have := hinv.reached.next_le hpc hr (by omega)
      omega
  · rintro ⟨hlt, hnr⟩
    -- `pc` itself is scanned, so a skipped position is below it or an immediate
    rcases Nat.lt_or_ge p pc with h | h
    · exact Or.inl (Or.inl ⟨h, hnr⟩)
    · have : p ≠ pc := fun e => hnr (e ▸ hinv.reached)
      by_cases h8 : p < pc + 1 + 8 * (immediates code[pc] / 8)
      · exact Or.inl (Or.inr ⟨by omega, h8⟩)
      · exact Or.inr ⟨by omega, by omega⟩

/-- Over any other opcode the loop moves one byte on. -/
theorem LoopInv.skip {code : List UInt8} {bits : Bitvec} {pc : Nat}
    (hinv : LoopInv code bits pc) (hpc : pc < code.length)
    (hpush : ¬ (PUSH1 ≤ code[pc] ∧ code[pc] ≤ PUSH32)) :
    LoopInv code bits (pc + 1) := by
  have hw : immediates code[pc] = 0 := by simp [immediates, hpush]
  refine ⟨hinv.length, by simpa [hw] using hinv.reached.step hpc, fun p => ?_⟩
  rw [hinv.data]
  constructor
  · rintro ⟨hlt, hnr⟩
    exact ⟨by omega, hnr⟩
  · rintro ⟨hlt, hnr⟩
    have : p ≠ pc := fun e => hnr (e ▸ hinv.reached)
    exact ⟨by omega, hnr⟩

/-- The loop runs to the end of the code without a write out of bounds,
keeping its invariant. -/
theorem codeBitmapLoop_eq (code : List UInt8) :
    ∀ bits pc, LoopInv code bits pc →
      ∃ bits' pc', code.length ≤ pc' ∧ codeBitmapLoop code bits pc = some bits' ∧
        LoopInv code bits' pc' := by
  -- induction on the distance to the end of the code, which every step shrinks
  intro bits pc hinv
  induction h : code.length - pc using Nat.strong_induction_on generalizing bits pc with
  | _ m ih =>
      by_cases hpc : pc < code.length
      · rw [codeBitmapLoop, dif_pos hpc]
        by_cases hpush : PUSH1 ≤ code[pc] ∧ code[pc] ≤ PUSH32
        · obtain ⟨b₁, b₂, h₁, h₂, hinv₂⟩ := hinv.push hpc
          simp only [if_pos hpush]
          split
          · rename_i heq
            rw [numbits_eq hpush, h₁] at heq
            cases heq
          · rename_i b₁' pc₁ n₁ heq
            rw [numbits_eq hpush, h₁] at heq
            cases heq
            split
            · rename_i heq
              rw [h₂] at heq
              cases heq
            · rename_i b₂' pc₂ heq
              rw [h₂] at heq
              cases heq
              exact ih _ (by omega) b₂ _ hinv₂ rfl
        · simp only [if_neg hpush]
          exact ih _ (by omega) bits (pc + 1) (hinv.skip hpc hpush) rfl
      · rw [codeBitmapLoop, dif_neg hpc]
        exact ⟨bits, pc, by omega, rfl, hinv⟩

theorem codeSegment_eq {bits : Bitvec} {pos : Nat} (h : pos / 8 < bits.length) :
    bits.codeSegment pos = some (!bitAt bits pos) := by
  simp [Bitvec.codeSegment, h, bitAt_eq_testMsb h, testMsb, bne]

/-- **The analysis is the scan.** `codeBitmap` never writes outside its
vector, and at every position of the code it reports an instruction start
exactly where the linear scan stops. -/
theorem codeBitmap_eq (code : List UInt8) :
    ∃ bits, codeBitmap code = some bits ∧ bits.length = code.length / 8 + 5 ∧
      ∀ p < code.length, bits.codeSegment p = some (!bitAt bits p) ∧
        (bitAt bits p = false ↔ Reached code p) := by
  obtain ⟨bits, pc, hend, hrun, hinv⟩ := codeBitmapLoop_eq code _ 0 (LoopInv.init code)
  refine ⟨bits, hrun, hinv.length, fun p hp => ⟨codeSegment_eq (by rw [hinv.length]; omega), ?_⟩⟩
  rw [← Bool.not_eq_true, hinv.data]
  constructor
  · intro h
    by_contra hr
    exact h ⟨by omega, hr⟩
  · rintro hr ⟨-, hnr⟩
    exact hnr hr

end Btp.Vm
