import Mathlib
import Btp.Lib.PoolOwnership

/-!
# Poisoning the pool changes nothing a frame reads

Two runs of one checked machine from configurations that differ only in the
objects' values: the plain run, and the verifying run, which writes the
poison into every object put back and checks the pool after each operation.
`Sim` relates them: the same configuration but for the heap, the heaps
agreeing on every object a frame reads, and every pooled object of the
verifying run holding the poison. Every step keeps `Sim` (`step_sim`), so the
two runs go in lockstep, the verifying run never fails its check, and both
show the same stack values, states and outcome (`run_sim`).
-/

namespace PoolMachine

open scoped List

variable {X F C E K V G L O : Type}

/-! ## What a frame reads -/

/-- An object the frame may read: on its stack, owned by a register, or its
value object. -/
def Frame.Clean (f : Frame X F C E K L) (p : Ptr) : Prop :=
  p ∈ f.stack ∨ (∃ q, f.env q = .owned ∧ f.regs q = p) ∨ p = f.value

/-- What a frame reads is held by it or by an outer frame. -/
theorem clean_live_of_values {fs : List (Frame X F C E K L)} (hv : ValuesOK fs)
    {f : Frame X F C E K L} (hf : f ∈ fs) {p : Ptr} (hp : f.Clean p) : p ∈ live fs := by
  induction fs with
  | nil => cases hf
  | cons g gs ih =>
    rw [live_cons]
    rcases List.mem_cons.1 hf with rfl | hf
    · rcases hp with hp | ⟨q, hq, rfl⟩ | rfl
      · exact List.mem_append_left _ (List.mem_append_left _ (List.mem_append_left _ hp))
      · exact List.mem_append_left _ (List.mem_append_left _
          (List.mem_append_right _ (mem_heldRegs (by rw [hq]; rfl))))
      · rcases hv.1 with ho | hl
        · exact List.mem_append_left _ (List.mem_append_right _ (by simp [Frame.ownValue, ho]))
        · exact List.mem_append_right _ hl
    · exact List.mem_append_right _ (ih hv.2 hf)

theorem not_mem_pool_of_live {c : Config X F C E K V G L O} (hi : Inv c) {p : Ptr}
    (hp : p ∈ live c.frames) : p ∉ c.pool := by
  intro hpool
  have hnd := hi.nodup
  rw [Config.acct, List.append_assoc] at hnd
  exact List.disjoint_of_nodup_append hnd hpool (List.mem_append_right _ hp)

/-- What a frame reads is out of the pool. -/
theorem not_mem_pool_of_clean {c : Config X F C E K V G L O} (hi : Inv c) {f : Frame X F C E K L}
    (hf : f ∈ c.frames) {p : Ptr} (hp : f.Clean p) : p ∉ c.pool :=
  not_mem_pool_of_live hi (clean_live_of_values hi.values hf hp)

/-- An object the running frame may write is out of the pool. -/
theorem not_mem_pool_of_writable {c : Config X F C E K V G L O} (hi : Inv c)
    {f : Frame X F C E K L} {rest : List (Frame X F C E K L)} (hf : c.frames = f :: rest)
    {r : Reg} (hr : (f.env r).writable = true) : f.regs r ∉ c.pool := by
  have hwf : f.Wf := hi.wf f (by rw [hf]; exact List.mem_cons_self)
  refine not_mem_pool_of_live hi ?_
  rw [hf, live_cons]
  refine List.mem_append_left _ ?_
  cases hs : f.env r with
  | owned | dirty =>
    exact List.mem_append_left _ (List.mem_append_right _ (mem_heldRegs (by rw [hs]; rfl)))
  | stacked => exact List.mem_append_left _ (List.mem_append_left _ (hwf.stacked r hs))
  | free | borrowed =>
    rw [hs] at hr
    cases hr

theorem pool_nodup {c : Config X F C E K V G L O} (hi : Inv c) : c.pool.Nodup := by
  have hnd := hi.nodup
  rw [Config.acct, List.append_assoc] at hnd
  exact (List.nodup_append.1 hnd).1

theorem fresh_not_mem_pool {c : Config X F C E K V G L O} (hi : Inv c) : c.fresh ∉ c.pool :=
  fun hp => lt_irrefl _ (hi.lt_fresh _ (List.mem_append_left _ (List.mem_append_left _ hp)))

theorem Frame.Clean.of_readable {f : Frame X F C E K L} (hwf : f.Wf) {q : Reg}
    (hq : (f.env q).readable = true) : f.Clean (f.regs q) := by
  cases hs : f.env q with
  | owned => exact Or.inr (Or.inl ⟨q, hs, rfl⟩)
  | stacked => exact Or.inl (hwf.stacked q hs)
  | borrowed => exact Or.inr (Or.inr (hwf.borrowed q hs))
  | free | dirty =>
    rw [hs] at hq
    cases hq

/-- A frame that reads no more than `f`. -/
theorem Frame.Clean.mono {f' : Frame X F C E K L} {p : Ptr} (hp : f'.Clean p)
    {f : Frame X F C E K L} (hstack : ∀ p ∈ f'.stack, f.Clean p)
    (hown : ∀ t, f'.env t = .owned → f.Clean (f'.regs t)) (hvalue : f'.value = f.value) :
    f.Clean p := by
  rcases hp with hp | ⟨t, ht, rfl⟩ | rfl
  · exact hstack p hp
  · exact hown t ht
  · rw [hvalue]
    exact Or.inr (Or.inr rfl)

/-- A frame whose registers other than `r` keep their objects and statuses. -/
theorem Frame.Clean.of_update {f' : Frame X F C E K L} {p : Ptr} (hp : f'.Clean p)
    {f : Frame X F C E K L} {r : Reg}
    (hstack : ∀ p ∈ f'.stack, f.Clean p) (hr : f'.env r = .owned → f.Clean (f'.regs r))
    (henv : ∀ t, t ≠ r → f'.env t = f.env t) (hregs : ∀ t, t ≠ r → f'.regs t = f.regs t)
    (hvalue : f'.value = f.value) : f.Clean p := by
  refine hp.mono hstack (fun t ht => ?_) hvalue
  by_cases htr : t = r
  · subst htr
    exact hr ht
  · rw [henv t htr] at ht
    rw [hregs t htr]
    exact Or.inr (Or.inl ⟨t, ht, rfl⟩)

/-- A frame whose register `r` now points at another object with a status
other than `owned`, the rest kept: it reads only what `f` reads. -/
theorem Frame.Clean.of_update_not_owned {f' : Frame X F C E K L} {p : Ptr} (hp : f'.Clean p)
    {f : Frame X F C E K L} {r : Reg} {s : Status} {q : Ptr}
    (hstack : ∀ p ∈ f'.stack, f.Clean p) (henv : f'.env = Function.update f.env r s)
    (hregs : f'.regs = Function.update f.regs r q) (hvalue : f'.value = f.value)
    (hs : s ≠ .owned) : f.Clean p := by
  refine hp.of_update (r := r) hstack (fun hr => ?_) (fun t ht => ?_) (fun t ht => ?_) hvalue
  · rw [henv, Function.update_self] at hr
    exact absurd hr hs
  · rw [henv, Function.update_of_ne ht]
  · rw [hregs, Function.update_of_ne ht]

/-- A frame whose register `r` now points at `q`, the rest kept: it reads
what `f` reads, or `q`. -/
theorem Frame.Clean.of_update_or {f' : Frame X F C E K L} {p : Ptr} (hp : f'.Clean p)
    {f : Frame X F C E K L} {r : Reg} {q : Ptr}
    (hstack : ∀ p ∈ f'.stack, f.Clean p) (henv : ∀ t, t ≠ r → f'.env t = f.env t)
    (hregs : f'.regs = Function.update f.regs r q) (hvalue : f'.value = f.value) :
    f.Clean p ∨ p = q := by
  rcases hp with hp | ⟨t, ht, rfl⟩ | rfl
  · exact Or.inl (hstack _ hp)
  · by_cases htr : t = r
    · subst htr
      rw [hregs, Function.update_self]
      exact Or.inr rfl
    · rw [henv t htr] at ht
      rw [hregs, Function.update_of_ne htr]
      exact Or.inl (Or.inr (Or.inl ⟨t, ht, rfl⟩))
  · rw [hvalue]
    exact Or.inl (Or.inr (Or.inr rfl))

/-- A frame whose registers only lost their objects. -/
theorem Frame.Clean.of_env {f' : Frame X F C E K L} {p : Ptr} (hp : f'.Clean p)
    {f : Frame X F C E K L} (hstack : f'.stack = f.stack) (hregs : f'.regs = f.regs)
    (hvalue : f'.value = f.value) (henv : ∀ t, f'.env t = .owned → f.env t = .owned) :
    f.Clean p :=
  hp.mono (fun _ h => Or.inl (hstack ▸ h))
    (fun t ht => hregs ▸ Or.inr (Or.inl ⟨t, henv t ht, rfl⟩)) hvalue

/-! ## The plain run and the verifying run -/

/-- The plain run's configuration `c₁` and the verifying run's `c₂`. -/
structure Sim (M : Machine X F C E K V G L O) (c₁ c₂ : Config X F C E K V G L O) : Prop where
  frames : c₂.frames = c₁.frames
  pool : c₂.pool = c₁.pool
  fresh : c₂.fresh = c₁.fresh
  g : c₂.g = c₁.g
  result : c₂.result = c₁.result
  dropped : c₂.dropped = c₁.dropped
  agree : ∀ f ∈ c₁.frames, ∀ p, f.Clean p → c₁.heap p = c₂.heap p
  poisoned : ∀ p ∈ c₁.pool, c₂.heap p = M.poison

section Sim

variable {M : Machine X F C E K V G L O}

theorem Sim.shape {c₁ c₂ : Config X F C E K V G L O} (hs : Sim M c₁ c₂) :
    c₂ = { c₁ with heap := c₂.heap } := by
  obtain ⟨fr, he, po, fs, g, re, dr⟩ := c₂
  obtain ⟨hfr, hpo, hfs, hg, hre, hdr, -, -⟩ := hs
  simp only at hfr hpo hfs hg hre hdr
  subst hfr hpo hfs hg hre hdr
  rfl

theorem Sim.of_heap {c : Config X F C E K V G L O} {h : Ptr → V}
    (hagree : ∀ f ∈ c.frames, ∀ p, f.Clean p → c.heap p = h p)
    (hpois : ∀ p ∈ c.pool, h p = M.poison) : Sim M c { c with heap := h } :=
  ⟨rfl, rfl, rfl, rfl, rfl, rfl, hagree, hpois⟩

/-- The values of registers the frame may read are the same in both runs. -/
theorem vals_eq {c : Config X F C E K V G L O} {h : Ptr → V} (hs : Sim M c { c with heap := h })
    {f : Frame X F C E K L} (hf : f ∈ c.frames) (hwf : f.Wf) {args : List Reg}
    (hargs : (args.all fun q => (f.env q).readable) = true) : vals h f args = vals c.heap f args := by
  rw [List.all_eq_true] at hargs
  exact List.map_congr_left fun q hq =>
    (hs.agree f hf _ (Frame.Clean.of_readable hwf (hargs q hq))).symm

/-- The running frame reads no more than before, the heaps unchanged. -/
theorem agree_keep {c : Config X F C E K V G L O} {h : Ptr → V} (hs : Sim M c { c with heap := h })
    {f f' : Frame X F C E K L} {rest : List (Frame X F C E K L)} (hf : c.frames = f :: rest)
    (hclean : ∀ p, f'.Clean p → f.Clean p) :
    ∀ g ∈ f' :: rest, ∀ p, g.Clean p → c.heap p = h p := by
  intro g hg p hp
  rcases List.mem_cons.1 hg with rfl | hg
  · exact hs.agree f (by rw [hf]; exact List.mem_cons_self) p (hclean p hp)
  · exact hs.agree g (by rw [hf]; exact List.mem_cons_of_mem _ hg) p hp

theorem Sim.head {c : Config X F C E K V G L O} {h : Ptr → V} (hs : Sim M c { c with heap := h })
    {f f' : Frame X F C E K L} {rest : List (Frame X F C E K L)} (hf : c.frames = f :: rest)
    (hclean : ∀ p, f'.Clean p → f.Clean p) (g : G) :
    Sim M { c with frames := f' :: rest, g := g } { c with heap := h, frames := f' :: rest, g := g } :=
  Sim.of_heap (agree_keep hs hf hclean) hs.poisoned

/-- The running frame reads no more than before, or the object `w`, written
with the same value in both runs. -/
theorem agree_head {c : Config X F C E K V G L O} {h : Ptr → V} (hs : Sim M c { c with heap := h })
    {f f' : Frame X F C E K L} {rest : List (Frame X F C E K L)} (hf : c.frames = f :: rest)
    {w : Ptr} (v : V) (hclean : ∀ z, f'.Clean z → f.Clean z ∨ z = w) :
    ∀ g ∈ f' :: rest, ∀ z, g.Clean z →
      Function.update c.heap w v z = Function.update h w v z := by
  intro g hg z hz
  by_cases hzw : z = w
  · rw [hzw, Function.update_self, Function.update_self]
  · rw [Function.update_of_ne hzw, Function.update_of_ne hzw]
    rcases List.mem_cons.1 hg with rfl | hg
    · exact hs.agree f (by rw [hf]; exact List.mem_cons_self) z ((hclean z hz).resolve_right hzw)
    · exact hs.agree g (by rw [hf]; exact List.mem_cons_of_mem _ hg) z hz

/-- The verifying run writes `w`, off the (new) pool `P`. -/
theorem poisoned_update {c : Config X F C E K V G L O} {h : Ptr → V}
    (hs : Sim M c { c with heap := h }) {P : List Ptr} (hP : ∀ z ∈ P, z ∈ c.pool) {w : Ptr}
    (hw : w ∉ P) (v : V) : ∀ z ∈ P, Function.update h w v z = M.poison := by
  intro z hz
  have hzw : z ≠ w := by
    rintro rfl
    exact hw hz
  rw [Function.update_of_ne hzw]
  exact hs.poisoned z (hP z hz)

/-- Objects put back in the verifying run are poisoned. -/
theorem poisoned_putAll {c : Config X F C E K V G L O} {h : Ptr → V}
    (hs : Sim M c { c with heap := h }) (ps : List Ptr) :
    ∀ z ∈ ps.reverse ++ c.pool, (if ps.contains z then M.poison else h z) = M.poison := by
  intro z hz
  by_cases hm : ps.contains z
  · rw [if_pos hm]
  · rw [if_neg hm]
    rcases List.mem_append.1 hz with hz | hz
    · exact absurd (List.contains_iff_mem.2 (List.mem_reverse.1 hz)) hm
    · exact hs.poisoned z hz

/-- What a frame of `c'` reads is none of the objects just put back, when
they are in `c'`'s pool. -/
theorem agree_putAll {c' : Config X F C E K V G L O} (hi' : Inv c') {ps : List Ptr}
    (hps : ∀ z ∈ ps, z ∈ c'.pool) {heap h : Ptr → V}
    (hold : ∀ g ∈ c'.frames, ∀ z, g.Clean z → heap z = h z) :
    ∀ g ∈ c'.frames, ∀ z, g.Clean z → heap z = if ps.contains z then M.poison else h z := by
  intro g hg z hz
  have hm : ps.contains z = false := by
    rw [Bool.eq_false_iff]
    intro hm
    exact not_mem_pool_of_clean hi' hg hz (hps z (List.contains_iff_mem.1 hm))
  simp only [hm, Bool.false_eq_true, if_false]
  exact hold g hg z hz

/-- The plain and the verifying run start together when the verifying run's
pool holds only poisoned objects. -/
theorem Sim.init {heap₁ heap₂ : Ptr → V} {pool : List Ptr} {v fresh : Nat} {g : G} {l : L}
    (hv : heap₁ v = heap₂ v) (hpool : ∀ p ∈ pool, heap₂ p = M.poison) :
    Sim M (Config.init heap₁ pool v fresh g l : Config X F C E K V G L O)
      (Config.init heap₂ pool v fresh g l) := by
  refine ⟨rfl, rfl, rfl, rfl, rfl, rfl, ?_, hpool⟩
  intro f hf p hp
  rw [Config.init, List.mem_singleton] at hf
  subst hf
  rcases hp with hp | ⟨q, hq, _⟩ | rfl
  · cases hp
  · cases hq
  · exact hv

end Sim

section Steps

variable (M : Machine X F C E K V G L O)

theorem actStep_sim {c : Config X F C E K V G L O} {h : Ptr → V} {f : Frame X F C E K L}
    {rest : List (Frame X F C E K L)} {x : X} {p : Prog F C E K} {a : Act F E K}
    (hi : Inv c) (hs : Sim M c { c with heap := h }) (hf : c.frames = f :: rest)
    (hck : check f.env f.pops (.act a p) = true)
    (hi' : ∀ c', actStep M false c f rest x p a = some c' → Inv c') :
    Option.Rel (Sim M) (actStep M false c f rest x p a)
      (actStep M true { c with heap := h } f rest x p a) := by
  obtain ⟨hok, -⟩ := check_act_iff.1 hck
  have hfm : f ∈ c.frames := by rw [hf]; exact List.mem_cons_self
  have hwf : f.Wf := hi.wf f hfm
  have hown : ∀ t, f.env t = .owned → f.Clean (f.regs t) := fun t ht => Or.inr (Or.inl ⟨t, ht, rfl⟩)
  cases a with
  | pop r =>
    cases hst : f.stack with
    | nil =>
      simp only [actStep, hst]
      exact .none
    | cons q s =>
      simp only [actStep, hst]
      refine .some (hs.head hf ?_ c.g)
      intro z hz
      refine hz.of_update (f := f) (r := r) (fun z hz => Or.inl ?_) (fun _ => Or.inl ?_)
        (fun t ht => Function.update_of_ne ht _ _) (fun t ht => Function.update_of_ne ht _ _) (by rfl)
      · rw [hst]
        exact List.mem_cons_of_mem _ hz
      · rw [hst]
        simp
  | peek r =>
    cases hst : f.stack with
    | nil =>
      simp only [actStep, hst]
      exact .none
    | cons q s =>
      simp only [actStep, hst]
      refine .some (hs.head hf ?_ c.g)
      intro z hz
      exact hz.of_update_not_owned (f := f) (r := r) (fun z hz => Or.inl (by rwa [hst]))
        (by rfl) (by rfl) (by rfl) (by decide)
  | back r n =>
    cases hb : backAt f.stack n with
    | none =>
      simp only [actStep, hb]
      exact .none
    | some q =>
      simp only [actStep, hb]
      refine .some (hs.head hf ?_ c.g)
      intro z hz
      exact hz.of_update_not_owned (f := f) (r := r) (fun z hz => Or.inl hz) (by rfl) (by rfl)
        (by rfl) (by decide)
  | push r =>
    simp only [Act.ok, beq_iff_eq] at hok
    simp only [actStep]
    refine .some (hs.head hf ?_ c.g)
    intro z hz
    refine hz.of_update (f := f) (r := r) (fun z hz => ?_) (fun he => ?_)
      (fun t ht => Function.update_of_ne ht _ _) (fun _ _ => rfl) (by rfl)
    · rcases List.mem_cons.1 hz with rfl | hz
      · exact hown r hok
      · exact Or.inl hz
    · simp [Act.env] at he
  | get r =>
    obtain hp | ⟨q, ps, hp⟩ : c.pool = [] ∨ ∃ q ps, c.pool = q :: ps := by
      cases c.pool <;> simp
    · simp only [actStep]
      rw [take_of_nil M hp, take_of_nil M (c := { c with heap := h }) hp]
      simp only [alloc_heap]
      refine .some (Sim.of_heap (agree_head hs hf _ fun z hz => Or.inl ?_)
        (fun z hz => absurd hz (by simp [hp])))
      exact hz.of_update_not_owned (f := f) (r := r) (fun z hz => Or.inl hz) (by rfl) (by rfl)
        (by rfl) (by decide)
    · simp only [actStep]
      rw [take_of_cons M hp, take_of_cons M (c := { c with heap := h }) hp]
      refine .some (Sim.of_heap (agree_keep hs hf fun z hz => ?_)
        (fun z hz => hs.poisoned z (by rw [hp]; exact List.mem_cons_of_mem _ hz)))
      exact hz.of_update_not_owned (f := f) (r := r) (fun z hz => Or.inl hz) (by rfl) (by rfl)
        (by rfl) (by decide)
  | getZero r =>
    obtain hp | ⟨q, ps, hp⟩ : c.pool = [] ∨ ∃ q ps, c.pool = q :: ps := by
      cases c.pool <;> simp
    · simp only [actStep]
      rw [take_of_nil M hp, take_of_nil M (c := { c with heap := h }) hp]
      simp only [alloc_heap, Function.update_idem]
      refine .some (Sim.of_heap (agree_head hs hf _ fun z hz => ?_)
        (fun z hz => absurd hz (by simp [hp])))
      exact hz.of_update_or (f := f) (r := r) (fun z hz => Or.inl hz)
        (fun t ht => Function.update_of_ne ht _ _) rfl (by rfl)
    · have hq : q ∉ ps := by
        have hnd := pool_nodup hi
        rw [hp] at hnd
        exact (List.nodup_cons.1 hnd).1
      simp only [actStep]
      rw [take_of_cons M hp, take_of_cons M (c := { c with heap := h }) hp]
      refine .some (Sim.of_heap (agree_head hs hf _ fun z hz => ?_)
        (poisoned_update hs (fun z hz => by rw [hp]; exact List.mem_cons_of_mem _ hz) hq _))
      exact hz.of_update_or (f := f) (r := r) (fun z hz => Or.inl hz)
        (fun t ht => Function.update_of_ne ht _ _) rfl (by rfl)
  | new r =>
    simp only [actStep, alloc_heap]
    refine .some (Sim.of_heap (agree_head hs hf _ fun z hz => ?_)
      (poisoned_update hs (fun _ h => h) (fresh_not_mem_pool hi) _))
    exact hz.of_update_or (f := f) (r := r) (fun z hz => Or.inl hz)
      (fun t ht => Function.update_of_ne ht _ _) rfl (by rfl)
  | set r fn args =>
    simp only [Act.ok, Bool.and_eq_true] at hok
    simp only [actStep, vals_eq hs hfm hwf hok.2]
    refine .some (Sim.of_heap (agree_head hs hf _ fun z hz => ?_)
      (poisoned_update hs (fun _ h => h) (not_mem_pool_of_writable hi hf hok.1) _))
    exact hz.of_update_or (f := f) (r := r) (fun z hz => Or.inl hz)
      (fun t ht => Function.update_of_ne ht _ _) (Function.update_eq_self r f.regs).symm (by rfl)
  | move r s =>
    simp only [Act.ok, Bool.and_eq_true, beq_iff_eq, bne_iff_ne, ne_eq] at hok
    obtain ⟨⟨hs', -⟩, hrs⟩ := hok
    simp only [actStep]
    refine .some (hs.head hf ?_ c.g)
    intro z hz
    refine hz.mono (fun z hz => Or.inl hz) (fun t ht => ?_) (by rfl)
    by_cases hts : t = s
    · subst hts
      simp [Act.env] at ht
    · by_cases htr : t = r
      · subst htr
        simp only [Function.update_self]
        exact hown s hs'
      · simp only [Act.env, Function.update_of_ne hts, Function.update_of_ne htr] at ht ⊢
        exact hown t ht
  | put rs =>
    have hi'' := hi' _ rfl
    simp only [actStep] at hi'' ⊢
    have henv : ∀ t, (Act.put rs : Act F E K).env f.env t = .owned → f.env t = .owned := by
      intro t ht
      by_cases ht' : rs.contains t
      · have he : (Act.put rs : Act F E K).env f.env t = .free := if_pos ht'
        rw [he] at ht
        cases ht
      · have he : (Act.put rs : Act F E K).env f.env t = f.env t := if_neg ht'
        rwa [he] at ht
    by_cases hl : M.limit < c.pool.length
    · simp only [putAll, hl, if_true] at hi'' ⊢
      exact .some (Sim.of_heap (agree_keep hs hf fun z hz => by exact hz.of_env rfl rfl rfl henv)
        hs.poisoned)
    · simp only [putAll, hl, if_false, Bool.false_eq_true, if_true] at hi'' ⊢
      refine .some (Sim.of_heap (agree_putAll hi''
        (fun z hz => List.mem_append_left _ (List.mem_reverse.2 hz))
        (agree_keep hs hf fun z hz => by exact hz.of_env rfl rfl rfl henv))
        (poisoned_putAll hs _))
  | swap n =>
    cases hsw : swapTop f.stack n with
    | none =>
      simp only [actStep, hsw]
      exact .none
    | some s =>
      simp only [actStep, hsw]
      refine .some (hs.head hf (fun z hz => ?_) c.g)
      exact hz.mono (fun z hz => Or.inl ((swapTop_perm hsw).subset hz)) hown rfl
  | effect e args =>
    simp only [Act.ok] at hok
    simp only [actStep, vals_eq hs hfm hwf hok]
    exact .some (hs.head hf (fun z hz => by exact hz) _)
  | call k args v =>
    simp only [Act.ok, Bool.and_eq_true] at hok
    cases v with
    | some r =>
      have hv : f.Clean (f.regs r) := by
        simp only [Bool.or_eq_true, beq_iff_eq] at hok
        rcases hok.2 with hr | hr
        · exact hown r hr
        · exact Or.inr (Or.inr (hwf.borrowed r hr))
      simp only [actStep, vals_eq hs hfm hwf hok.1]
      refine .some (Sim.of_heap (fun g hg z hz => ?_) hs.poisoned)
      rcases List.mem_cons.1 hg with rfl | hg
      · simp [Frame.Clean, idleEnv] at hz
        subst hz
        exact hs.agree f hfm _ hv
      · exact agree_keep hs hf (fun z hz => by exact hz) g hg z hz
    | none =>
      simp only [actStep, vals_eq hs hfm hwf hok.1, alloc_heap]
      refine .some (Sim.of_heap (fun g hg z hz => ?_)
        (poisoned_update hs (fun _ h => h) (fresh_not_mem_pool hi) _))
      dsimp only at hg ⊢
      by_cases hzf : z = c.fresh
      · rw [hzf, Function.update_self, Function.update_self]
      · rw [Function.update_of_ne hzf, Function.update_of_ne hzf]
        rcases List.mem_cons.1 hg with rfl | hg
        · simp [Frame.Clean, idleEnv] at hz
          exact absurd hz hzf
        · exact agree_keep hs hf (fun z hz => by exact hz) g hg z hz

theorem endFrame_sim {c : Config X F C E K V G L O} {h : Ptr → V} {f f' : Frame X F C E K L}
    {rest : List (Frame X F C E K L)} {g : G} {o : O} (hs : Sim M c { c with heap := h })
    (hf : c.frames = f :: rest)
    (hi' : ∀ c', endFrame M false c f' rest g o = some c' → Inv c') :
    Option.Rel (Sim M) (endFrame M false c f' rest g o)
      (endFrame M true { c with heap := h } f' rest g o) := by
  -- the outer frames read what they read before
  have hrest : ∀ fr ∈ rest, ∀ z, fr.Clean z → c.heap z = h z := fun fr hfr z hz =>
    hs.agree fr (by rw [hf]; exact List.mem_cons_of_mem _ hfr) z hz
  cases rest with
  | nil =>
    have hi'' := hi' _ rfl
    unfold endFrame at hi'' ⊢
    by_cases hl : M.limit < c.pool.length
    · simp only [putAll, hl, if_true] at hi'' ⊢
      exact .some (Sim.of_heap (fun g hg => by simp at hg) hs.poisoned)
    · simp only [putAll, hl, if_false, Bool.false_eq_true, if_true] at hi'' ⊢
      exact .some (Sim.of_heap (fun g hg => by simp at hg) (poisoned_putAll hs _))
  | cons caller rest' =>
    cases hw : caller.waiting with
    | none =>
      unfold endFrame
      simp only [hw]
      exact .none
    | some k =>
      have hi'' := hi' _ (by unfold endFrame; simp only [hw]; exact rfl)
      have hcaller : ∀ fr ∈ ({ caller with l := (M.leave k g caller.l o).2, waiting := none } ::
          rest' : List (Frame X F C E K L)), ∀ z, fr.Clean z → c.heap z = h z := by
        intro fr hfr z hz
        rcases List.mem_cons.1 hfr with rfl | hfr
        · exact hrest caller List.mem_cons_self z (by exact hz)
        · exact hrest fr (List.mem_cons_of_mem _ hfr) z hz
      unfold endFrame at hi'' ⊢
      by_cases hl : M.limit < c.pool.length
      · simp only [putAll, hl, if_true, hw] at hi'' hcaller ⊢
        exact .some (Sim.of_heap hcaller hs.poisoned)
      · simp only [putAll, hl, if_false, Bool.false_eq_true, if_true, hw] at hi'' hcaller ⊢
        exact .some (Sim.of_heap (agree_putAll hi''
          (fun z hz => List.mem_append_left _ (List.mem_reverse.2 hz)) hcaller)
          (poisoned_putAll hs _))

variable [DecidableEq V]

theorem opEnd_sim {c : Config X F C E K V G L O} {h : Ptr → V} {f : Frame X F C E K L}
    {rest : List (Frame X F C E K L)} {x : X} {failed : Bool} (hs : Sim M c { c with heap := h })
    (hf : c.frames = f :: rest)
    (hi' : ∀ c', opEnd M false c f rest x failed = some c' → Inv c') :
    Option.Rel (Sim M) (opEnd M false c f rest x failed)
      (opEnd M true { c with heap := h } f rest x failed) := by
  -- the verifying run finds every pooled object poisoned
  have hpass : (c.pool.all fun p => decide (h p = M.poison)) = true :=
    List.all_eq_true.2 fun p hp => decide_eq_true (hs.poisoned p hp)
  unfold opEnd at hi' ⊢
  simp only [Bool.false_and, Bool.true_and, hpass, Bool.not_true, Bool.false_eq_true, if_false]
    at hi' ⊢
  cases ha : M.after x failed c.g f.l with
  | inl s =>
    exact .some (hs.head hf (fun z hz => by
      exact hz.of_env rfl rfl rfl fun t ht => by simp [idleEnv] at ht) s.1)
  | inr s =>
    simp only [ha] at hi'
    exact endFrame_sim M hs hf hi'

theorem step_sim (hM : Checked M) {c₁ c₂ : Config X F C E K V G L O} (hi : Inv c₁)
    (hs : Sim M c₁ c₂) : Option.Rel (Sim M) (step M false c₁) (step M true c₂) := by
  obtain ⟨h, rfl⟩ : ∃ h, c₂ = { c₁ with heap := h } := ⟨_, hs.shape⟩
  obtain hf | ⟨f, rest, hf⟩ : c₁.frames = [] ∨ ∃ f rest, c₁.frames = f :: rest := by
    cases c₁.frames <;> simp
  · rw [step_of_nil M false hf, step_of_nil M true (c := { c₁ with heap := h }) hf]
    exact .none
  rw [step_of_cons M false hf, step_of_cons M true (c := { c₁ with heap := h }) hf]
  have hfm : f ∈ c₁.frames := by rw [hf]; exact List.mem_cons_self
  have hwf : f.Wf := hi.wf f hfm
  have hi' : ∀ c', headStep M false c₁ f rest = some c' → Inv c' := fun c' h' =>
    step_inv false hM hi (by rw [step_of_cons M false hf]; exact h')
  unfold headStep at hi' ⊢
  split
  · -- the head of the loop reads the stack's values, the same in both runs
    rename_i hop
    have hstk : f.stack.map h = f.stack.map c₁.heap :=
      List.map_congr_left fun z hz => (hs.agree f hfm z (Or.inl hz)).symm
    simp only [hop, hstk] at hi' ⊢
    cases hp : M.prepare c₁.g f.l (f.stack.map c₁.heap) with
    | inl s =>
      -- the fresh loop head owns no register
      exact .some (hs.head hf (fun z hz => by
        exact hz.mono (fun _ hz => Or.inl hz)
          (fun t ht => absurd ht (startEnv_ne_owned t)) rfl) s.1)
    | inr s =>
      simp only [hp] at hi'
      exact endFrame_sim M hs hf hi'
  · rename_i x hop
    simp only [hop] at hi'
    exact opEnd_sim M hs hf hi'
  · rename_i x hop
    simp only [hop] at hi'
    exact opEnd_sim M hs hf hi'
  · -- a branch reads its condition's values, the same in both runs
    rename_i x cnd args t e hop
    have hck := hwf.checked x _ hop
    simp only [check, Bool.and_eq_true] at hck
    simp only [vals_eq hs hfm hwf hck.1.1]
    exact .some (hs.head hf (fun z hz => by exact hz) c₁.g)
  · rename_i x a p hop
    simp only [hop] at hi'
    exact actStep_sim M hi hs hf (hwf.checked x _ hop) hi'

/-- Plain and verifying runs of a checked machine go in lockstep: after any
number of steps both are stuck or both reached related configurations, and
the plain one keeps the ownership invariant. -/
theorem run_sim (hM : Checked M) :
    ∀ (n : Nat) {c₁ c₂ : Config X F C E K V G L O}, Inv c₁ → Sim M c₁ c₂ →
      Option.Rel (fun a b => Inv a ∧ Sim M a b) (run M false n c₁) (run M true n c₂)
  | 0, _, _, hi, hs => .some ⟨hi, hs⟩
  | n + 1, c₁, c₂, hi, hs => by
    have h := step_sim M hM hi hs
    have hinv : ∀ c', step M false c₁ = some c' → Inv c' := fun _ h' => step_inv false hM hi h'
    simp only [run]
    generalize step M false c₁ = a₁ at h hinv ⊢
    generalize step M true c₂ = a₂ at h ⊢
    cases h with
    | none => exact .none
    | some hs' => exact run_sim hM n (hinv _ rfl) hs'

end Steps

/-! ## What the discipline gives -/

section Results

/-- Everything a frame uses is live: its stack, the registers its operation
may still use, and its value object. -/
theorem mem_live_of_used {fs : List (Frame X F C E K L)} (hv : ValuesOK fs)
    (hwf : ∀ f ∈ fs, f.Wf) {f : Frame X F C E K L} (hf : f ∈ fs) {p : Ptr}
    (hp : p ∈ f.stack ∨ p = f.value ∨ ∃ r, f.env r ≠ .free ∧ f.regs r = p) : p ∈ live fs := by
  rcases hp with hp | rfl | ⟨r, hr, rfl⟩
  · exact clean_live_of_values hv hf (Or.inl hp)
  · exact clean_live_of_values hv hf (Or.inr (Or.inr rfl))
  · cases hs : f.env r with
    | free => exact absurd hs hr
    | dirty =>
      -- taken from the pool and not yet written: held by the registers alone
      exact List.mem_flatMap.2 ⟨f, hf, List.mem_append_left _
        (List.mem_append_right _ (mem_heldRegs (by rw [hs]; rfl)))⟩
    | owned | stacked | borrowed =>
      exact clean_live_of_values hv hf (Frame.Clean.of_readable (hwf f hf) (by rw [hs]; rfl))

/-- The pool holds no object twice, and no object in the pool or dropped
from it is on a frame's stack, in a register its operation may still use,
or a frame's value object. -/
def Config.Safe (c : Config X F C E K V G L O) : Prop :=
  c.pool.Nodup ∧ ∀ p ∈ c.pool ++ c.dropped, ∀ f ∈ c.frames,
    p ∉ f.stack ∧ p ≠ f.value ∧ ∀ r, f.env r ≠ .free → f.regs r ≠ p

theorem Inv.safe {c : Config X F C E K V G L O} (hi : Inv c) : c.Safe := by
  refine ⟨pool_nodup hi, fun p hp f hf => ?_⟩
  have hnd := hi.nodup
  rw [Config.acct] at hnd
  have hout : p ∉ live c.frames := fun hl => List.disjoint_of_nodup_append hnd hp hl
  have hused := fun h => hout (mem_live_of_used hi.values hi.wf hf h)
  exact ⟨fun hs => hused (Or.inl hs), fun hv => hused (Or.inr (Or.inl hv)),
    fun r hr hreg => hused (Or.inr (Or.inr ⟨r, hr, hreg⟩))⟩

/-- Two configurations show the same: the frames with their own state, the
shared state, the outcome, and the values on every stack and of every
frame's value object. -/
def Config.Observed (c₁ c₂ : Config X F C E K V G L O) : Prop :=
  c₁.frames = c₂.frames ∧ c₁.g = c₂.g ∧ c₁.result = c₂.result ∧
    ∀ f ∈ c₁.frames, f.stack.map c₁.heap = f.stack.map c₂.heap ∧ c₁.heap f.value = c₂.heap f.value

theorem Sim.observed {M : Machine X F C E K V G L O} {c₁ c₂ : Config X F C E K V G L O}
    (hs : Sim M c₁ c₂) : c₁.Observed c₂ := by
  refine ⟨hs.frames.symm, hs.g.symm, hs.result.symm, fun f hf => ⟨?_, ?_⟩⟩
  · exact List.map_congr_left fun p hp => hs.agree f hf p (Or.inl hp)
  · exact hs.agree f hf _ (Or.inr (Or.inr rfl))

end Results

end PoolMachine
